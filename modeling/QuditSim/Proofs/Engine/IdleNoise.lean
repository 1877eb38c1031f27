import QuditSim.Proofs.Engine.NoiseRecord
import QuditSim.Proofs.Noise.Idle

/-!
# Noise that does nothing

An engine with the noise of an idle channel and one without noise carry out a circuit whose operators
are unitary. The noise draws numbers of its own, so the measurements of the two runs see the same
numbers only if these are at other places (`Circuit.SameDraws`). Then the two engines hold the same
after each step.

- `Engine.Determined`: what a step does to an engine depends on what the engine holds, and for a
  measurement on the number that it sees.
- `Engine.Idling` relates the two engines, and `Engine.Idling.ends_execute` is the step lemma: a step of
  both takes them to where they are related again.
- `Engine.Idling.ends_run` is the induction over the steps.
- `Engine.idle_noise` reads off it what the two runs leave.
-/

namespace QuditSim

/-! ## The numbers that steps draw -/

/-- How many numbers a step draws when it is carried out. -/
def Step.draws : Step → ℕ
  | gate _ => 0
  | measure _ => 1

namespace Circuit

variable {S : Type} {c : Circuit S} {t : ℕ}

/-- How many numbers noise draws before the first steps: one for each live qudit before each step. -/
def noiseDraws (c : Circuit S) (t : ℕ) : ℕ :=
  ((c.log.take t).mapIdx fun i _ => Layout.place (c.measuredAfter i) c.qudits).sum

/-- How many numbers the first steps draw themselves. -/
def outcomeDraws (c : Circuit S) (t : ℕ) : ℕ := ((c.log.take t).map Step.draws).sum

theorem noiseDraws_succ (ht : t < c.log.length) :
    c.noiseDraws (t + 1) = c.noiseDraws t + Layout.place (c.measuredAfter t) c.qudits := by
  unfold noiseDraws
  rw [List.take_succ_eq_append_getElem ht, List.mapIdx_append, List.sum_append]
  simp [Nat.min_eq_left ht.le]

theorem outcomeDraws_succ (ht : t < c.log.length) :
    c.outcomeDraws (t + 1) = c.outcomeDraws t + c.log[t].draws := by
  unfold outcomeDraws
  rw [List.take_succ_eq_append_getElem ht, List.map_append, List.sum_append]
  simp

/-- Each measurement of a circuit sees the same number in a run with noise on all live qudits as in a
run without noise. -/
def SameDraws (c : Circuit S) (noisy plain : Draws S) : Prop :=
  ∀ i step, c.log[i]? = some (.measure step) →
    (noisy.skip (c.noiseDraws (i + 1) + c.outcomeDraws i)).current =
      (plain.skip (c.outcomeDraws i)).current

end Circuit

namespace Engine

open Execution

/-! ## What engines hold -/

/-- Two engines hold the same: their states, their dits with the probabilities, and where their qudits
are. -/
structure Agrees {S R : Type} (engine engine' : Engine S R) : Prop where
  /-- The states are the same. -/
  state_eq : engine.state = engine'.state
  /-- The dits have the same values. -/
  dits_eq : engine.dits = engine'.dits
  /-- They were written with the same probabilities. -/
  probs_eq : engine.probs = engine'.probs
  /-- The qudits are at the same positions. -/
  layout_eq : engine.layout = engine'.layout

section Found

variable {S R : Type} [Scalar S] [Scalar R] [Rounding S R] [Rounding R S] {c : Circuit S}
  {gone : List Int}

/-- What a recorded measurement of live qudits finds is given by the state and the number that it
sees. -/
theorem exists_found (checking : Bool) (ip : Int) (hd : 2 ≤ c.dim) {step : MeasureStep}
    (hstep : step.Recorded c) (hlive : ∀ q ∈ step.targets, q ∉ gone) :
    ∃ found : StateVector R → S → StateVector R × ℕ × S, ∀ run : Run S R, Stands c gone run.engine →
      Ends (performMeasurement checking c ip step (step.targets.map (seat gone))) run
        (fun _ run' => run'.draws = run.draws.advance ∧ run'.engine =
          let (state, outcome, prob) := found run.engine.state run.draws.current
          run.engine.collapsed c gone step state outcome prob)
        fun _ _ => True := by
  -- an outcome is sampled from weights that the state gives, and what is taken over goes with it
  have hfound (weights : StateVector R → List S)
      (result : StateVector R → ℕ → StateVector R × ℕ × S)
      (hends : ∀ run : Run S R, Stands c gone run.engine →
        Ends (performMeasurement checking c ip step (step.targets.map (seat gone))) run
          (fun _ run' => ∃ v, sampleIndex (weights run.engine.state) run.draws.current = .ok v ∧
            run'.draws = run.draws.advance ∧ run'.engine =
              let (state, outcome, prob) := result run.engine.state v
              run.engine.collapsed c gone step state outcome prob)
          fun _ _ => True) :
      ∃ found : StateVector R → S → StateVector R × ℕ × S, ∀ run : Run S R,
        Stands c gone run.engine →
          Ends (performMeasurement checking c ip step (step.targets.map (seat gone))) run
            (fun _ run' => run'.draws = run.draws.advance ∧ run'.engine =
              let (state, outcome, prob) := found run.engine.state run.draws.current
              run.engine.collapsed c gone step state outcome prob)
            fun _ _ => True := by
    refine ⟨fun state u => result state ((sampleIndex (weights state) u).toOption.getD 0),
      fun run h => (hends run h).mono (fun _ run' hrun' => ?_) fun _ _ _ => trivial⟩
    obtain ⟨v, hv, hdraws, hengine⟩ := hrun'
    dsimp only
    rw [hv]
    exact ⟨hdraws, hengine⟩
  rcases hstep.standard_or_inBasis with ⟨hkind, q, htargets⟩ | ⟨hkind, key, hkeys, hoperator⟩
  · have hqlive : q ∉ gone := hlive q (by simp [htargets])
    let p := Layout.place gone q.toNat
    exact hfound (StateVector.digitWeights c.dim p)
      (fun state v => (StateVector.remaining S c.dim p v state, v,
        1 * StateVector.chanceWeight (StateVector.slice c.dim p v state)))
      fun run h => (ends_measureStandard checking ip hd h hstep hkind htargets hqlive).mono
        (fun _ _ hrun' => hrun') fun _ _ _ => trivial
  · obtain ⟨basis, hkey, hshape⟩ := hoperator
    let n := Layout.place gone c.qudits
    let places := step.targets.map fun q => Layout.place gone q.toNat
    exact hfound (StateVector.columnWeights c.dim n (Rounding.round basis) places)
      (fun state j => (StateVector.remainingOfColumn S c.dim n (Rounding.round basis) places state j,
        j, StateVector.chanceWeight
          (StateVector.branchOfColumn c.dim n (Rounding.round basis) places state j)))
      fun run h => (ends_measureInBasis checking ip hd h hstep hkind hkeys hkey hshape hlive).mono
        (fun _ _ hrun' => hrun') fun _ _ _ => trivial

end Found

/-! ## Steps of two engines -/

section Determined

variable {c : Circuit ℝ} {gone : List Int} {step : Step}

/-- A recorded step on live qudits is resolved to a task, and what the task makes of an engine with a
state of weight one goes with what the engine holds and, for a measurement, with the number that it
sees. -/
structure Determined (checking : Bool) (c : Circuit ℝ) (gone : List Int) (ip : ℕ) (step : Step)
    (task : Task) (after : Engine ℝ ℝ → ℝ → Engine ℝ ℝ) : Prop where
  /-- The qudits are found. -/
  resolve_eq : ∀ engine : Engine ℝ ℝ, Stands c gone engine →
    engine.resolve (step.view c.serial ip) = .ok task
  /-- The same is made of engines that hold the same and see the same number. -/
  agrees : ∀ engine engine' u u', Agrees engine engine' → step.draws = 0 ∨ u = u' →
    Agrees (after engine u) (after engine' u')
  /-- Noise is left as it is. -/
  preStep_eq : ∀ engine u, (after engine u).preStep = engine.preStep
  /-- The task is carried out without a fault. -/
  ends : ∀ run : Run ℝ ℝ, Normed c gone run.engine →
    Ends (match task with
        | .gate step controls targets => performGate checking c ip step controls targets
        | .measurement step targets => performMeasurement checking c ip step targets) run
      (fun _ run' => run'.engine = after run.engine run.draws.current ∧
        Normed c (gone ++ step.retired) run'.engine ∧ run'.draws = run.draws.skip step.draws)
      fun _ _ => False

/-- Every recorded step of a circuit whose operators are unitary is determined. -/
theorem exists_determined (checking : Bool) (ip : ℕ) (hd : 2 ≤ c.dim)
    (hextent : c.dim ^ c.qudits < 2 ^ 63) (hunitary : c.Unitary) (hstep : step.Recorded c)
    (hlive : ∀ q ∈ step.qudits, q ∉ gone) :
    ∃ task after, Determined checking c gone ip step task after := by
  cases step with
  | gate step =>
    -- the acts of a gate depend on the dits, and no number is drawn
    let acted (engine : Engine ℝ ℝ) : Engine ℝ ℝ := { engine with
      state := (((acts c engine.dits step step.controls step.targets).toOption.getD []).map
        (Act.rename (seat gone))).foldl (Act.total c.dim) engine.state }
    refine ⟨_, fun engine _ => acted engine, fun engine h => resolve_gate h hstep hlive, ?_,
      fun _ _ => rfl, fun run h => ?_⟩
    · intro engine engine' u u' h _
      refine ⟨?_, h.dits_eq, h.probs_eq, h.layout_eq⟩
      show List.foldl _ engine.state _ = List.foldl _ engine'.state _
      rw [h.state_eq, h.dits_eq]
    · obtain ⟨list, hlist, hfit⟩ := h.toTracks.acts_fit hstep hlive
      refine ((ends_performGate hd h.toStands hlist hfit).and
        (ends_performGate_normed checking ip hd hunitary h hstep hlive)).mono
        (fun _ run' hrun' => ?_) fun _ _ hfault => hfault.2
      obtain ⟨⟨hdraws, hengine⟩, hnormed, -⟩ := hrun'
      rw [Step.retired_gate, List.append_nil]
      refine ⟨?_, hnormed, hdraws⟩
      rw [hengine]
      show _ = acted run.engine
      unfold acted
      rw [hlist]
      rfl
  | measure step =>
    obtain ⟨found, hfound⟩ := exists_found (R := ℝ) checking ip hd hstep hlive
    refine ⟨_, fun engine u =>
      let (state, outcome, prob) := found engine.state u
      engine.collapsed c gone step state outcome prob,
      fun engine h => resolve_measure h hstep hlive, ?_, fun _ _ => rfl, fun run h => ?_⟩
    · intro engine engine' u u' h hu
      obtain rfl : u = u' := hu.resolve_left Nat.one_ne_zero
      dsimp only
      rw [h.state_eq]
      refine ⟨rfl, ?_, ?_, rfl⟩
      · unfold collapsed
        dsimp only
        rw [h.dits_eq]
      · unfold collapsed
        dsimp only
        rw [h.probs_eq]
    · obtain ⟨weights, -, -, hends⟩ := ends_performMeasurement_normed checking ip hd hextent hunitary h
        hstep hlive
      refine ((hfound run h.toStands).and hends).mono (fun _ run' hrun' => ?_)
        fun _ _ hfault => hfault.2
      obtain ⟨⟨hdraws, hengine⟩, hnormed, -⟩ := hrun'
      exact ⟨hengine, hnormed, hdraws⟩

end Determined

/-! ## With idle noise and without noise -/

section Idling

variable {c : Circuit ℝ} {gone : List Int} {noisy plain : Run ℝ ℝ}

/-- An engine with the noise of an idle channel, which drew its branch zero whenever it acted, and one
without noise stand at the same place and hold the same, with a state of weight one. -/
structure Idling (c : Circuit ℝ) (gone : List Int) (noisy plain : Engine ℝ ℝ) : Prop where
  /-- The noisy engine stands there. -/
  normed : Normed c gone noisy
  /-- The other one does, too. -/
  normed_plain : Normed c gone plain
  /-- They hold the same. -/
  agrees : Agrees noisy plain
  /-- The noise is that of an idle channel, and its record has branches zero. -/
  idle : ∃ model branches, noisy.preStep = .noise (.trajectory model) branches ∧
    model.channel.Idle ∧ ∀ record ∈ branches, ∀ branch ∈ record, branch = 0
  /-- The other engine has no noise. -/
  silent : plain.preStep = .nothing

/-- A record with branches zero to which such branches are added is one. -/
theorem forall_mem_modify_extendedTo {ip : ℕ} {branches : List (List ℕ)} {record : List ℕ}
    (hbranches : ∀ record ∈ branches, ∀ branch ∈ record, branch = 0)
    (hrecord : ∀ branch ∈ record, branch = 0) :
    ∀ record' ∈ (extendedTo ip branches).modify ip (· ++ record), ∀ branch ∈ record', branch = 0 := by
  have hextended : ∀ record ∈ extendedTo ip branches, ∀ branch ∈ record, branch = 0 := by
    intro record hrecord
    obtain ⟨i, hi⟩ := List.mem_iff_getElem?.mp hrecord
    rcases mem_of_extendedTo hi with hold | rfl
    · exact hbranches record (List.mem_of_getElem? hold)
    · exact fun branch hbranch => nomatch hbranch
  intro record' hrecord'
  obtain ⟨i, hi⟩ := List.mem_iff_getElem?.mp hrecord'
  rw [List.getElem?_modify] at hi
  obtain ⟨before, hbefore, rfl⟩ := Option.map_eq_some_iff.mp hi
  have hzero := hextended before (List.mem_of_getElem? hbefore)
  split
  · exact List.forall_mem_append.mpr ⟨hzero, hrecord⟩
  · exact hzero

/-- Idle noise before a step draws a number for each live qudit and changes nothing. -/
theorem Idling.ends_prepare {plain : Engine ℝ ℝ} {checking : Bool} {view : StepView} {ip : ℕ}
    (hip : view.ip = ip) (hd : 2 ≤ c.dim) (h : Idling c gone noisy.engine plain) :
    Ends (prepare checking view) noisy
      (fun _ noisy' => Idling c gone noisy'.engine plain ∧
        noisy'.draws = noisy.draws.skip (Layout.place gone c.qudits))
      fun _ _ => False := by
  obtain ⟨model, branches, hpre, hidle, hzero⟩ := h.idle
  have hfits := h.normed.fits.channel hpre
  have hbelow {j : ℕ} (hj : j ≤ Layout.place gone c.qudits) :=
    Trajectory.run_applyBelow_idle hd hidle hfits.dim_eq h.normed.weight_eq h.normed.size_state hj
      noisy.draws
  refine (ends_prepare_below hip hd h.normed.toStands hpre).mono (fun _ noisy' hrun' => ?_)
    fun fault noisy' hfault => ?_
  · obtain ⟨model', state', record, hengine, happlied, hrecord⟩ := hrun'
    obtain ⟨after, hidles, hchannel⟩ := hbelow (Nat.le_refl _)
    obtain ⟨hresult, hdraws⟩ := Prod.mk.inj (hidles.symm.trans happlied)
    cases hresult
    rw [hengine]
    refine ⟨⟨⟨h.normed.toTracks.withPreStep ?_, h.normed.length_probs, h.normed.weight_eq, ?_⟩,
      h.normed_plain,
      ⟨h.agrees.state_eq, h.agrees.dits_eq, h.agrees.probs_eq, h.agrees.layout_eq⟩,
      ⟨model', _, rfl, hchannel ▸ hidle, forall_mem_modify_extendedTo hzero fun branch hbranch => ?_⟩,
      h.silent⟩, hdraws.symm⟩
    · show model'.channel.Fits c.dim
      rwa [hchannel]
    · show model'.channel.Preserving
      rw [hchannel]
      exact hidle.preserving
    · obtain ⟨j, hj⟩ := List.mem_iff_getElem?.mp hbranch
      have hlt : j < Layout.place gone c.qudits := by
        rw [← hrecord.length_eq]
        exact (List.getElem?_eq_some_iff.mp hj).1
      have hdraws := hrecord.draws j branch hj
      rw [Nat.zero_add] at hdraws
      exact hdraws.eq_zero hd hidle hfits.dim_eq h.normed.weight_eq h.normed.size_state hlt.le
  -- an idle channel does not fail at any position
  · obtain ⟨j, cause, hj, -, hfails⟩ := hfault
    obtain ⟨after, hidles, -⟩ := hbelow hj
    rw [hidles] at hfails
    cases hfails

/-- A step of a circuit whose operators are unitary takes both engines to where they hold the same
again, if its measurement sees the same number after the noise as without it. -/
theorem Idling.ends_execute {step : Step} (checking : Bool) (ip : ℕ) (hd : 2 ≤ c.dim)
    (hextent : c.dim ^ c.qudits < 2 ^ 63) (hunitary : c.Unitary)
    (h : Idling c gone noisy.engine plain.engine) (hstep : step.Recorded c)
    (hlive : ∀ q ∈ step.qudits, q ∉ gone)
    (hdraws : step.draws = 0 ∨
      (noisy.draws.skip (Layout.place gone c.qudits)).current = plain.draws.current) :
    Ends (execute checking c (step.view c.serial ip)) noisy
      (fun _ noisy' => Ends (execute checking c (step.view c.serial ip)) plain
        (fun _ plain' => Idling c (gone ++ step.retired) noisy'.engine plain'.engine ∧
          noisy'.draws = noisy.draws.skip (Layout.place gone c.qudits + step.draws) ∧
            plain'.draws = plain.draws.skip step.draws)
        fun _ _ => False)
      fun _ _ => False := by
  obtain ⟨task, after, hdetermined⟩ :=
    exists_determined checking ip hd hextent hunitary hstep hlive
  have hip : (step.view c.serial ip).ip = ip := rfl
  -- first the engine with noise
  refine Engine.ends_execute h.normed.fits.serial_eq.symm
    (hdetermined.resolve_eq _ h.normed.toStands) ((h.ends_prepare hip hd).mono
      (fun _ noisy₁ h₁ noisy₂ hengine₂ hdraws₂ => ?_) fun _ _ hfalse => hfalse)
  obtain ⟨hidling, hskipped⟩ := h₁
  rw [← hengine₂] at hidling
  rw [← hdraws₂] at hskipped
  refine (hdetermined.ends noisy₂ hidling.normed).mono (fun _ noisy₃ h₃ => ?_)
    fun _ _ hfalse => hfalse
  obtain ⟨hengine₃, hnormed₃, hdraws₃⟩ := h₃
  rw [ends_checkNorm_normed hnormed₃.weight_eq]
  -- then the other one, from where it stands
  refine Engine.ends_execute h.normed_plain.fits.serial_eq.symm
    (hdetermined.resolve_eq _ h.normed_plain.toStands) ?_
  rw [ends_prepare_nothing h.silent]
  intro plain₂ hplain₂ hseen₂
  refine (hdetermined.ends plain₂ (hplain₂ ▸ h.normed_plain)).mono (fun _ plain₃ hplain₃ => ?_)
    fun _ _ hfalse => hfalse
  obtain ⟨hafter, hnormed_plain, hseen₃⟩ := hplain₃
  rw [ends_checkNorm_normed hnormed_plain.weight_eq]
  refine ⟨⟨hnormed₃, hnormed_plain, ?_, ?_, ?_⟩, ?_, ?_⟩
  · rw [hengine₃, hafter, hplain₂, hskipped, hseen₂]
    exact hdetermined.agrees _ _ _ _ hidling.agrees hdraws
  · rw [hengine₃]
    obtain ⟨model, branches, hpre, hidle⟩ := hidling.idle
    exact ⟨model, branches, (hdetermined.preStep_eq _ _).trans hpre, hidle⟩
  · rw [hafter, hdetermined.preStep_eq, hplain₂]
    exact h.silent
  · rw [hdraws₃, hskipped, Draws.skip_skip]
  · rw [hseen₃, hseen₂]

omit c gone noisy plain in
/-- One more of the first steps of a circuit is carried out after those before. -/
theorem ends_take_succ {S R : Type} [Scalar S] [Scalar R] [Rounding S R] [Rounding R S]
    {c : Circuit S} (hordered : c.Ordered) {checking : Bool} {run : Run S R} {t : ℕ}
    (ht : t < c.log.length) {Q : Unit → Run S R → Prop} {E : EngineFault → Run S R → Prop} :
    Ends ((c.views.take (t + 1)).forM (execute checking c)) run Q E ↔
      Ends ((c.views.take t).forM (execute checking c)) run
        (fun _ run' => Ends (execute checking c (c.log[t].view c.serial t)) run' Q E) E := by
  have hviews : t < c.views.length := by rwa [Circuit.views_eq hordered, List.length_mapIdx]
  have hview : c.views[t] = c.log[t].view c.serial t := by simp [Circuit.views_eq hordered]
  have hforM : (c.views.take t ++ [c.log[t].view c.serial t]).forM (execute checking c) =
      ((c.views.take t).forM (execute checking c) >>= fun _ =>
        execute checking c (c.log[t].view c.serial t) >>= fun _ => pure () :
        Execution S R Unit) := List.forM_append
  rw [List.take_succ_eq_append_getElem hviews, hview, hforM]
  simp only [ends_bind, ends_pure]

/-- After any number of first steps, the two engines hold the same. -/
theorem Idling.ends_run (checking : Bool) (hsane : Sane c noisy.engine) (hunitary : c.Unitary)
    (h : Idling c [] noisy.engine plain.engine) (hdraws : c.SameDraws noisy.draws plain.draws)
    {t : ℕ} (ht : t ≤ c.log.length) :
    Ends ((c.views.take t).forM (execute checking c)) noisy
      (fun _ noisy' => Ends ((c.views.take t).forM (execute checking c)) plain
        (fun _ plain' => Idling c (c.measuredAfter t) noisy'.engine plain'.engine ∧
          noisy'.draws = noisy.draws.skip (c.noiseDraws t + c.outcomeDraws t) ∧
            plain'.draws = plain.draws.skip (c.outcomeDraws t))
        fun _ _ => False)
      fun _ _ => False := by
  -- the induction is on the number of steps, and both runs have used as many numbers as these draw
  induction t with
  | zero => exact ⟨h, rfl, rfl⟩
  | succ t ih =>
    have hordered := hsane.wellFormed.ordered
    have hseen : c.log[t].draws = 0 ∨
        (noisy.draws.skip (c.noiseDraws (t + 1) + c.outcomeDraws t)).current =
          (plain.draws.skip (c.outcomeDraws t)).current := by
      cases hstep : c.log[t] with
      | gate step => exact .inl rfl
      | measure step => exact .inr (hdraws t step (by rw [List.getElem?_eq_getElem ht, hstep]))
    rw [ends_take_succ hordered ht]
    refine (ih (Nat.le_of_lt ht)).mono (fun _ noisy₁ hnoisy₁ => ?_) fun _ _ hfalse => hfalse
    obtain ⟨⟨hidling, hnoise, houtcomes⟩, hplain₁⟩ := hnoisy₁.of_outcome
    rw [Circuit.noiseDraws_succ ht] at hseen
    have hstep := hidling.ends_execute checking t hsane.two_le_dim hsane.size_lt hunitary
      (hsane.wellFormed.recorded _ (List.getElem_mem ht)) (hsane.wellFormed.live ht) ?_
    · refine hstep.mono (fun _ noisy₂ hnoisy₂ => ?_) fun _ _ hfalse => hfalse
      rw [ends_take_succ hordered ht]
      refine hplain₁.mono (fun _ plain₁ heq => ?_) fun _ _ hfalse => hfalse
      rw [heq]
      refine hnoisy₂.mono (fun _ plain₂ hplain₂ => ?_) fun _ _ hfalse => hfalse
      obtain ⟨hidling₂, hnoise₂, houtcomes₂⟩ := hplain₂
      rw [Circuit.measuredAfter_succ ht, Circuit.noiseDraws_succ ht, Circuit.outcomeDraws_succ ht]
      refine ⟨hidling₂, ?_, ?_⟩
      · rw [hnoise₂, hnoise, Draws.skip_skip]
        congr 1
        omega
      · rw [houtcomes₂, houtcomes, Draws.skip_skip]
    · rw [hnoise, houtcomes, Draws.skip_skip, Nat.add_right_comm]
      exact hseen

variable {model : Trajectory ℝ} {branches : List (List ℕ)}

/-- Two engines that were just made or reset, one of them with idle noise, hold the same. -/
theorem Ready.idling [Capacity] (hnoisy : Ready c noisy.engine)
    (hpre : noisy.engine.preStep = .noise (.trajectory model) branches) (hidle : model.channel.Idle)
    (hplain : Ready c plain.engine) (hsilent : plain.engine.preStep = .nothing) :
    Idling c [] noisy.engine plain.engine := by
  obtain ⟨hsane, hstart⟩ := hnoisy.sane
  obtain ⟨hsane', hstart'⟩ := hplain.sane
  have hpreserving : noisy.engine.preStep.Preserving := by
    rw [hpre]
    exact hidle.preserving
  have hpreserving' : plain.engine.preStep.Preserving := by
    rw [hsilent]
    trivial
  refine ⟨hstart.normed hsane.two_le_dim hsane.fits hpreserving,
    hstart'.normed hsane'.two_le_dim hsane'.fits hpreserving', ⟨?_, ?_, ?_, ?_⟩,
    ⟨model, branches, hpre, hidle, fun record hrecord => ?_⟩, hsilent⟩
  · rw [hstart.state_eq, hstart'.state_eq]
  · rw [hstart.dits_eq, hstart'.dits_eq]
  · rw [hstart.probs_eq, hstart'.probs_eq]
  · rw [hstart.layout_eq, hstart'.layout_eq]
  · rw [hnoisy.eq_nil (noiseBranches?_of_noise hpre) record hrecord]
    exact fun branch hbranch => nomatch hbranch

/-- A circuit whose operators are unitary is carried out with the noise of an idle channel as it is
without noise, if its measurements see the same numbers: after each number of first steps, and so in
the end, the states, the dits, their probabilities and the layouts are the same, and all branches of
the noise are zero. The noise draws a number for each live qudit before each step, which is where the
numbers of the measurements are. All channels of the library are idle for the parameter zero. -/
theorem idle_noise [Capacity] (hunitary : c.Unitary) (hnoisy : Ready c noisy.engine)
    (hpre : noisy.engine.preStep = .noise (.trajectory model) branches) (hidle : model.channel.Idle)
    (hplain : Ready c plain.engine) (hsilent : plain.engine.preStep = .nothing)
    (hdraws : c.SameDraws noisy.draws plain.draws) (checking : Bool) :
    (∀ p : Written ℝ, p.value = 0 →
      (∀ made ∈ Channel.qubitChannels p, Channel.MakesIdle 2 made) ∧
        ∀ dim d, quditDimension dim = .ok d →
          ∀ made ∈ Channel.quditChannels p dim, Channel.MakesIdle d made) ∧
    ∀ t ≤ c.log.length, Ends ((c.views.take t).forM (execute checking c)) noisy
      (fun _ noisy' => Ends ((c.views.take t).forM (execute checking c)) plain
        (fun _ plain' => Agrees noisy'.engine plain'.engine ∧
          (∃ branches', noisy'.engine.noiseBranches? = some branches' ∧
            ∀ record ∈ branches', ∀ branch ∈ record, branch = 0) ∧
          noisy'.draws = noisy.draws.skip (c.noiseDraws t + c.outcomeDraws t) ∧
            plain'.draws = plain.draws.skip (c.outcomeDraws t))
        fun _ _ => False)
      fun _ _ => False := by
  refine ⟨fun p hp => ⟨Channel.makesIdle_qubit hp, fun dim d => Channel.makesIdle_qudit hp⟩,
    fun t ht => ?_⟩
  have hidling := hnoisy.idling hpre hidle hplain hsilent
  refine (hidling.ends_run checking hnoisy.sane.1 hunitary hdraws ht).mono (fun _ noisy' hnoisy' =>
    hnoisy'.mono (fun _ plain' hplain' => ?_) fun _ _ hfalse => hfalse) fun _ _ hfalse => hfalse
  obtain ⟨hidling', hnoise, houtcomes⟩ := hplain'
  obtain ⟨model', branches', hpre', -, hzero⟩ := hidling'.idle
  exact ⟨hidling'.agrees, ⟨branches', noiseBranches?_of_noise hpre', hzero⟩, hnoise, houtcomes⟩

end Idling

section

attribute [local instance] Capacity.common

/-- The bit flip and a measurement, with noise that does nothing and without noise: the third number
of the noisy run is the first one of the other run. -/
theorem idle_noise_flip :
    let c : Circuit ℝ := (Circuit.empty 0 1 1 2 "" (fun _ => "") fun _ => 0).attemptAll
      [.gate (.operator Gate.pauliX) [.int 0] "", .measureZ (.int 0) (.int 0) ""]
    let channel : Channel ℝ := ⟨.string "idle", 2, [.identity 2, .matrix 2 2 fun _ _ => 0]⟩
    let noisy : Run ℝ ℝ :=
      ⟨start c {} (freshNoise c (.trajectory (.start channel))), .ofList [8⁻¹, 4⁻¹, 2⁻¹], []⟩
    let plain : Run ℝ ℝ := ⟨start c {} .nothing, .ofList [2⁻¹], []⟩
    c.Unitary ∧ Ready c noisy.engine ∧ channel.Idle ∧ Ready c plain.engine ∧
      c.SameDraws noisy.draws plain.draws ∧
      ∀ t ≤ c.log.length, Ends ((c.views.take t).forM (execute true c)) noisy
        (fun _ noisy' => Ends ((c.views.take t).forM (execute true c)) plain
          (fun _ plain' => Agrees noisy'.engine plain'.engine ∧
            (∃ branches', noisy'.engine.noiseBranches? = some branches' ∧
              ∀ record ∈ branches', ∀ branch ∈ record, branch = 0) ∧
            noisy'.draws = noisy.draws.skip (c.noiseDraws t + c.outcomeDraws t) ∧
              plain'.draws = plain.draws.skip (c.outcomeDraws t))
          fun _ _ => False)
        fun _ _ => False := by
  intro c channel noisy plain
  have hcreate : Circuit.create? 0 (.int 1) (.int 1) (.int 2) "" (fun _ => .ok fun _ => "")
      (fun _ => 0) = .ok (Circuit.empty 0 1 1 2 "" (fun _ => "") fun _ => 0 : Circuit ℝ) := rfl
  have hbuilt : c.Built := ⟨0, .int 1, .int 1, .int 2, "", _, _, _, _, hcreate, rfl⟩
  have hunitary : c.Unitary := unitary_of_pauliX rfl
  have hidle : channel.Idle :=
    ⟨[.matrix 2 2 fun _ _ => 0], rfl, fun op hop => List.mem_singleton.mp hop⟩
  have hnoisy : Ready c noisy.engine := by
    refine .made (.intro _ (some channel) _ hbuilt rfl (fun channel' hmem => ?_) rfl)
    obtain rfl := Option.some.inj hmem
    exact ⟨_, _, _, Channel.create_of_preserving _ (Nat.le_refl 2) hidle.fits.ne_nil hidle.fits.shape
      hidle.preserving⟩
  have hplain : Ready c plain.engine :=
    .made (.intro {} none .nothing hbuilt rfl (fun channel' hmem => nomatch hmem) rfl)
  have hdraws : c.SameDraws noisy.draws plain.draws := by
    intro i step hstep
    -- the second step is the only measurement
    obtain _ | _ | i := i
    · cases hstep
    · rfl
    · cases hstep
  exact ⟨hunitary, hnoisy, hidle, hplain, hdraws,
    (idle_noise hunitary hnoisy rfl hidle hplain rfl hdraws true).2⟩

end

end Engine

end QuditSim
