import QuditSim.Proofs.Engine.Action
import QuditSim.Proofs.Engine.Validity

/-!
# Removing measured qudits

The engine takes measured qudits out of its state and moves the others together. Over the real
numbers, and for a circuit that was built by calls, this is a correct implementation of keeping all
qudits as `FullRun` does.

- `Engine.Mirrors` relates a run of the engine to one that keeps all qudits.
- `Engine.ends_execute_mirrors` is the step lemma: a recorded step keeps the two related.
- `Engine.ends_run_mirrors` is the run lemma over any number of first steps, and
  `Engine.run_refines` reads off it the state, the dits and the probabilities.
-/

namespace QuditSim

namespace FullRun

/-- A measurement whose amplitudes are known ends as the drawing of its number does. -/
theorem measure_of_turned {c : Circuit ℝ} {full : FullRun} {step : MeasureStep} {psi : ℕ → ℂ}
    (h : turned c full.psi step = .ok psi) :
    full.measure c step = match sampleIndex (weights c step psi) full.draws.current with
      | .ok j => .ok (full.collapsed c step psi j)
      | .error cause => .error (.state cause) := by
  unfold measure
  rw [h]
  show ((sampleIndex (weights c step psi) full.draws.current).mapError EngineFault.state >>= _) = _
  cases sampleIndex (weights c step psi) full.draws.current <;> rfl

end FullRun

namespace Engine

open Execution

variable {c : Circuit ℝ} {gone : List Int} {full : FullRun} {run : Run ℝ ℝ} {checking : Bool}

/-- A run of the engine after the qudits of a list were measured mirrors a run that keeps all
qudits. -/
structure Mirrors (c : Circuit ℝ) (gone : List Int) (full : FullRun) (run : Run ℝ ℝ) : Prop where
  /-- The other run measured the same qudits. -/
  keys_eq : full.found.map Prod.fst = gone
  /-- It found digits of the register. -/
  findings : Findings c.dim c.qudits full.found
  /-- The state is that of the live qudits. -/
  restricts : Restricts c.dim c.qudits full.found full.psi run.engine.state
  /-- The dits have the same values. -/
  dits_eq : run.engine.dits = full.dits
  /-- They were written with the same probabilities. -/
  probs_eq : run.engine.probs = full.probs
  /-- The same numbers are left of chance. -/
  draws_eq : run.draws = full.draws

/-- What a step leaves: nothing was set up differently, and a run that keeps all qudits went one
step as well and is mirrored. -/
def Follows (c : Circuit ℝ) (gone : List Int) (full : FullRun) (step : Step) (engine : Engine ℝ ℝ)
    (run : Run ℝ ℝ) : Prop :=
  run.engine.preStep = engine.preStep ∧ run.engine.settings = engine.settings ∧
    ∃ full', full.step c step = .ok full' ∧ Mirrors c (gone ++ step.retired) full' run

/-- A step fails when a check of norms is on and refuses, or when it does for all qudits. -/
def FailsAlike (c : Circuit ℝ) (full : FullRun) (step : Step) (checking : Bool)
    (engine : Engine ℝ ℝ) (fault : EngineFault) : Prop :=
  (checking = true ∨ engine.settings.checkNormalization = true) ∧ fault.IsNorm ∨
    full.step c step = .error fault

/-! ## Measurements -/

section Measurements

variable {step : MeasureStep} {psi : ℕ → ℂ} {branch : ℕ → StateVector ℝ}

/-- The branches of the state for the numbers that the targets of a measurement can spell are those
of the full register. -/
structure Branches (c : Circuit ℝ) (full : FullRun) (step : MeasureStep) (psi : ℕ → ℂ)
    (branch : ℕ → StateVector ℝ) : Prop where
  /-- The measurement reads these amplitudes. -/
  turned_eq : FullRun.turned c full.psi step = .ok psi
  /-- They are zero off the digits found before. -/
  zero_off : ∀ x < c.dim ^ c.qudits, ¬ Consistent c.dim full.found x → psi x = 0
  /-- A branch is one of the qudits that stay live. -/
  size_eq : ∀ j < c.dim ^ step.targets.length, (branch j).size =
    c.dim ^ Layout.place (full.found.map Prod.fst ++ step.targets) c.qudits
  /-- It has the amplitudes of the indices in which the targets spell its number. -/
  amplitude_eq : ∀ j < c.dim ^ step.targets.length,
    ∀ y < c.dim ^ Layout.place (full.found.map Prod.fst ++ step.targets) c.qudits,
      ((branch j).amplitude y).toComplex =
        psi (fullIndex c.dim c.qudits (full.found ++ spelled c.dim step.targets j) y)

/-- The branches have the weights of the numbers. -/
theorem Branches.weights_eq (h : Branches c full step psi branch) (hd : 0 < c.dim)
    (hfindings : Findings c.dim c.qudits full.found) (hstep : step.Recorded c)
    (hlive : ∀ q ∈ step.targets, q ∉ full.found.map Prod.fst) :
    (List.range (c.dim ^ step.targets.length)).map
        (fun j => (StateVector.chanceWeight (branch j) : ℝ)) = FullRun.weights c step psi := by
  refine List.map_congr_left fun j hj => ?_
  rw [List.mem_range] at hj
  exact (Restricts.collapse hd hfindings hstep.targets hlive hj h.zero_off (h.size_eq j hj)
    (h.amplitude_eq j hj)).1

/-- An engine that took over the branch of a number mirrors the run that found it. -/
theorem Branches.mirrors (h : Branches c full step psi branch) (hd : 0 < c.dim)
    (hstep : step.Recorded c) (hlive : ∀ q ∈ step.targets, q ∉ full.found.map Prod.fst)
    (hmirrors : Mirrors c gone full run) {run' : Run ℝ ℝ} {j : ℕ}
    (hj : j < c.dim ^ step.targets.length) (hdraws : run'.draws = run.draws.advance)
    (hengine : run'.engine = run.engine.collapsed c gone step
      ((branch j).divRoot (StateVector.chanceWeight (branch j) : ℝ)) j
      (StateVector.chanceWeight (branch j))) :
    Mirrors c (gone ++ step.targets) (full.collapsed c step psi j) run' := by
  obtain ⟨hweight, hrestricts⟩ := Restricts.collapse hd hmirrors.findings hstep.targets hlive hj
    h.zero_off (h.size_eq j hj) (h.amplitude_eq j hj)
  refine ⟨?_, hmirrors.findings.append_spelled hd hstep.targets hlive j, ?_, ?_, ?_, ?_⟩
  · show (full.found ++ spelled c.dim step.targets j).map Prod.fst = _
    rw [List.map_append, keys_spelled, hmirrors.keys_eq]
  · rw [hengine]
    exact hrestricts
  · rw [hengine]
    exact congrArg (List.set · _ _) hmirrors.dits_eq
  · rw [hengine, hweight]
    exact congrArg (List.set · _ _) hmirrors.probs_eq
  · rw [hdraws]
    exact congrArg Draws.advance hmirrors.draws_eq

/-- The slices of the state are the branches of a measurement of one qudit. -/
theorem branches_standard (hd : 0 < c.dim) (hfindings : Findings c.dim c.qudits full.found)
    {state : StateVector ℝ} (hrel : Restricts c.dim c.qudits full.found full.psi state)
    (hstep : step.Recorded c) (hlive : ∀ q ∈ step.targets, q ∉ full.found.map Prod.fst)
    (hkind : step.kind = .standard) {q : Int} (htargets : step.targets = [q]) :
    Branches c full step full.psi fun v =>
      state.slice c.dim (Layout.place (full.found.map Prod.fst) q.toNat) v := by
  have hq : InRange c.qudits q := hstep.targets.inRange q (by simp [htargets])
  have hqlive : q ∉ full.found.map Prod.fst := hlive q (by simp [htargets])
  -- one target spells one digit
  have hslice : ∀ v < c.dim ^ step.targets.length, _ := fun v hv =>
    hrel.slice hd hfindings hq hqlive (v := v) (by simpa [htargets] using hv)
  refine ⟨?_, hrel.zero_off, fun v hv => ?_, fun v hv => ?_⟩
  · unfold FullRun.turned
    rw [hkind]
  · rw [htargets]
    exact (hslice v hv).1
  · rw [htargets]
    exact (hslice v hv).2

/-- The branches of the columns of a basis are those of a measurement in that basis. -/
theorem branches_basis (hd : 0 < c.dim) (hfindings : Findings c.dim c.qudits full.found)
    {state : StateVector ℝ} (hrel : Restricts c.dim c.qudits full.found full.psi state)
    (hstep : step.Recorded c) (hlive : ∀ q ∈ step.targets, q ∉ full.found.map Prod.fst)
    (hkind : step.kind = .basis ∨ step.kind = .jointBasis) {key : Int}
    (hkeys : step.keys = [key]) {basis : Operator ℝ} (hkey : c.operands.get? key = some basis) :
    Branches c full step
      (FullRun.actOn c.dim (fun i b => (starRingEnd ℂ) (basis.entry b i).toComplex)
        (step.targets.map Int.toNat) full.psi)
      fun j => StateVector.branchOfColumn c.dim
        (Layout.place (full.found.map Prod.fst) c.qudits) basis
        (step.targets.map fun q => Layout.place (full.found.map Prod.fst) q.toNat) state j := by
  have hcolumn : ∀ j < c.dim ^ step.targets.length, _ := fun j hj =>
    hrel.branchOfColumn hd hfindings hstep.targets hlive hj basis
  refine ⟨?_, fun x hx hnot => ?_, fun j hj => (hcolumn j hj).1, fun j hj => (hcolumn j hj).2⟩
  · unfold FullRun.turned
    rcases hkind with hkind | hkind
    · rw [hkind, hkeys]
      dsimp only [List.head?_cons]
      rw [operandOf_eq_ok hkey]
      rfl
    · rw [hkind, hkeys]
      dsimp only [List.head?_cons]
      rw [operandOf_eq_ok hkey]
      rfl
  · exact actOn_eq_zero hd hfindings hstep.targets.inRange hlive hrel.zero_off _ hx hnot

/-- What a measurement has to keep: the two runs stay related, or it fails as it does for all
qudits. -/
def KeepsMirroring (checking : Bool) (c : Circuit ℝ) (full : FullRun) (step : MeasureStep)
    (run : Run ℝ ℝ) (task : Execution ℝ ℝ Unit) : Prop :=
  Ends task run
    (fun _ run' => Follows c (full.found.map Prod.fst) full (.measure step) run.engine run')
    fun fault _ => checking = true ∧ fault.IsNorm ∨ full.step c (.measure step) = .error fault

section Live

variable (checking : Bool) (ip : ℕ) (hd : 2 ≤ c.dim)
  (htracks : Tracks c (full.found.map Prod.fst) run.engine)
  (h : Mirrors c (full.found.map Prod.fst) full run) (hstep : step.Recorded c)
  (hlive : ∀ q ∈ step.targets, q ∉ full.found.map Prod.fst)

include hd htracks h hstep hlive

/-- A recorded measurement of one live qudit keeps the two runs related. -/
theorem ends_measureStandard_mirrors (hkind : step.kind = .standard) {q : Int}
    (htargets : step.targets = [q]) :
    KeepsMirroring checking c full step run
      (performMeasurement checking c ip step
        (step.targets.map (seat (full.found.map Prod.fst)))) := by
  have hpos : 0 < c.dim := Nat.lt_of_lt_of_le Nat.two_pos hd
  have hbranches := branches_standard hpos h.findings h.restricts hstep hlive hkind htargets
  have hcount : c.dim ^ step.targets.length = c.dim := by
    rw [htargets, List.length_singleton, Nat.pow_one]
  have hweights : (StateVector.digitWeights c.dim
      (Layout.place (full.found.map Prod.fst) q.toNat) run.engine.state : List ℝ) =
      FullRun.weights c step full.psi := by
    rw [← hbranches.weights_eq hpos h.findings hstep hlive, hcount]
    rfl
  -- both runs draw from the same weights with the same number
  have hmeasure := FullRun.measure_of_turned hbranches.turned_eq
  rw [← hweights, ← h.draws_eq] at hmeasure
  refine (ends_measureStandard checking ip hd htracks.toStands hstep hkind htargets
    (hlive q (by simp [htargets]))).mono (fun _ run' hrun' => ?_) fun fault _ hfault => ?_
  · obtain ⟨v, hv, hdraws, hengine⟩ := hrun'
    have hlt := StateVector.lt_of_digitWeights hv
    rw [one_mul] at hengine
    rw [hv] at hmeasure
    refine ⟨?_, ?_, _, hmeasure,
      hbranches.mirrors hpos hstep hlive h (hcount.symm ▸ hlt) hdraws hengine⟩
    · rw [hengine]
      rfl
    · rw [hengine]
      rfl
  · rcases hfault with ⟨_, -, hrefused⟩ | ⟨cause, rfl, -, hcause⟩
    · exact .inl hrefused.isNorm
    · rw [hcause] at hmeasure
      exact .inr hmeasure

/-- A recorded measurement of live qudits in a basis of its own keeps the two runs related. -/
theorem ends_measureInBasis_mirrors (hkind : step.kind = .basis ∨ step.kind = .jointBasis)
    {key : Int} (hkeys : step.keys = [key]) (hoperator : c.HasOperator key step.targets.length) :
    KeepsMirroring checking c full step run
      (performMeasurement checking c ip step
        (step.targets.map (seat (full.found.map Prod.fst)))) := by
  have hpos : 0 < c.dim := Nat.lt_of_lt_of_le Nat.two_pos hd
  obtain ⟨basis, hkey, hshape⟩ := hoperator
  have hcolumns := Tensor.columns_of_shape hshape
  have hbranches := branches_basis hpos h.findings h.restricts hstep hlive hkind hkeys hkey
  have hmeasure := FullRun.measure_of_turned hbranches.turned_eq
  rw [← hbranches.weights_eq hpos h.findings hstep hlive, ← hcolumns, ← h.draws_eq] at hmeasure
  have hends := ends_measureInBasis checking ip hd htracks.toStands hstep hkind hkeys hkey hshape hlive
  rw [Tensor.round_real] at hends
  dsimp only [StateVector.columnWeights] at hends
  refine hends.mono (fun _ run' hrun' => ?_) fun fault _ hfault => ?_
  · obtain ⟨j, hj, hdraws, hengine⟩ := hrun'
    obtain ⟨hlt, hweight⟩ := drawn_of_sampleIndex hj
    rw [hcolumns] at hlt
    -- the number that was drawn has weight, so its branch is not the zero vector
    rw [StateVector.remainingOfColumn, StateVector.normalizedBranch, if_pos hweight] at hengine
    rw [hj] at hmeasure
    refine ⟨?_, ?_, _, hmeasure, hbranches.mirrors hpos hstep hlive h hlt hdraws hengine⟩
    · rw [hengine]
      rfl
    · rw [hengine]
      rfl
  · rcases hfault with ⟨_, -, hrefused⟩ | ⟨cause, rfl, -, hcause⟩
    · exact .inl hrefused.isNorm
    · rw [hcause] at hmeasure
      exact .inr hmeasure

end Live

/-- A recorded measurement of live qudits keeps the two runs related. -/
theorem ends_measure_mirrors (checking : Bool) (ip : ℕ) (hd : 2 ≤ c.dim)
    (htracks : Tracks c gone run.engine) (h : Mirrors c gone full run) (hstep : step.Recorded c)
    (hlive : ∀ q ∈ step.targets, q ∉ gone) :
    Ends (performMeasurement checking c ip step (step.targets.map (seat gone))) run
      (fun _ run' => Follows c gone full (.measure step) run.engine run')
      fun fault _ => checking = true ∧ fault.IsNorm ∨
        full.step c (.measure step) = .error fault := by
  obtain rfl := h.keys_eq
  rcases hstep.standard_or_inBasis with ⟨hkind, q, htargets⟩ | ⟨hkind, key, hkeys, hoperator⟩
  · exact ends_measureStandard_mirrors checking ip hd htracks h hstep hlive hkind htargets
  · exact ends_measureInBasis_mirrors checking ip hd htracks h hstep hlive hkind hkeys hoperator

end Measurements

/-! ## Steps -/

/-- A recorded gate on live qudits keeps the two runs related. -/
theorem ends_gate_mirrors (checking : Bool) (ip : ℕ) {step : GateStep} (hd : 2 ≤ c.dim)
    (htracks : Tracks c gone run.engine) (h : Mirrors c gone full run) (hstep : step.Recorded c)
    (hlive : ∀ q ∈ (Step.gate step).qudits, q ∉ gone) :
    Ends (performGate checking c ip step
        (if step.kind.isQuantumControlled then step.controls.map (seat gone) else step.controls)
        (step.targets.map (seat gone))) run
      (fun _ run' => Follows c gone full (.gate step) run.engine run')
      fun fault _ => checking = true ∧ fault.IsNorm := by
  obtain rfl := h.keys_eq
  obtain ⟨list, hlist, hfit⟩ := Engine.acts_fit hstep htracks.length_dits htracks.dits_lt
  obtain ⟨list', hlist', hfit'⟩ := htracks.acts_fit hstep hlive
  -- both runs read the same dits, so the gate has the same acts for both
  obtain rfl : list = list' := Except.ok.inj (hlist.symm.trans hlist')
  refine (ends_performGate hd htracks.toStands hlist hfit').mono (fun _ run' hrun' => ?_)
    fun _ _ ⟨_, hrefused⟩ => hrefused.isNorm
  obtain ⟨hdraws, hengine⟩ := hrun'
  have hgate : full.gate c step =
      .ok { full with psi := list.foldl (FullRun.act c.dim) full.psi } := by
    unfold FullRun.gate
    rw [← h.dits_eq, FullRun.acted_eq_ok hd hstep htracks.length_dits hlist]
    rfl
  -- the gate measures nothing, so the same qudits stay live and the same digits are found
  refine ⟨?_, ?_, _, hgate, ?_, h.findings, ?_, ?_, ?_, ?_⟩
  · rw [hengine]
  · rw [hengine]
  · rw [Step.retired_gate, List.append_nil]
  · rw [hengine]
    refine h.restricts.acts (Nat.lt_of_lt_of_le Nat.two_pos hd) h.findings
      (fun act hact => (hfit act hact).1) fun act hact q hq => ?_
    exact hlive q ((hfit act hact).2 q hq)
  · rw [hengine]
    exact h.dits_eq
  · rw [hengine]
    exact h.probs_eq
  · rw [hdraws]
    exact h.draws_eq

/-- A recorded step on live qudits keeps the two runs related. -/
theorem ends_execute_mirrors {step : Step} {ip : ℕ} (hd : 2 ≤ c.dim)
    (htracks : Tracks c gone run.engine) (hplain : run.engine.preStep = .nothing)
    (h : Mirrors c gone full run) (hstep : step.Recorded c) (hlive : ∀ q ∈ step.qudits, q ∉ gone) :
    Ends (execute checking c (step.view c.serial ip)) run
      (fun _ run' => Follows c gone full step run.engine run')
      fun fault _ => FailsAlike c full step checking run.engine fault := by
  -- the check of the norm after a step changes nothing
  have hchecked {run' : Run ℝ ℝ} (hrun' : Follows c gone full step run.engine run') :
      Ends checkNorm run' (fun _ run'' => Follows c gone full step run.engine run'')
        fun fault _ => FailsAlike c full step checking run.engine fault := by
    refine (ends_checkNorm run').mono (fun _ run'' heq => heq ▸ hrun') fun fault _ hfault => ?_
    rw [hrun'.2.1] at hfault
    exact .inl ⟨.inr hfault.1, hfault.2⟩
  -- nothing is done before a step, so the step starts from the same engine and the same draws
  have hsame {run' : Run ℝ ℝ} (hengine : run'.engine = run.engine)
      (hdraws : run'.draws = run.draws) : Mirrors c gone full run' := by
    refine ⟨h.keys_eq, h.findings, ?_, ?_, ?_, hdraws.trans h.draws_eq⟩
    · exact hengine ▸ h.restricts
    · exact hengine ▸ h.dits_eq
    · exact hengine ▸ h.probs_eq
  cases step with
  | gate step =>
    refine ends_execute htracks.fits.serial_eq.symm (resolve_gate htracks.toStands hstep hlive) ?_
    rw [ends_prepare_nothing hplain]
    intro run' hengine hdraws
    have hends := ends_gate_mirrors checking ip hd (hengine.symm ▸ htracks)
      (hsame hengine hdraws) hstep hlive
    rw [hengine] at hends
    exact hends.mono (fun _ run'' hrun'' => hchecked hrun'')
      fun _ _ hfault => .inl ⟨.inl hfault.1, hfault.2⟩
  | measure step =>
    refine ends_execute htracks.fits.serial_eq.symm (resolve_measure htracks.toStands hstep hlive) ?_
    rw [ends_prepare_nothing hplain]
    intro run' hengine hdraws
    have hends := ends_measure_mirrors checking ip hd
      (hengine.symm ▸ htracks) (hsame hengine hdraws) hstep hlive
    rw [hengine] at hends
    refine hends.mono (fun _ run'' hrun'' => hchecked hrun'') fun _ _ hfault => ?_
    rcases hfault with hnorm | herror
    · exact .inl ⟨.inl hnorm.1, hnorm.2⟩
    · exact .inr herror

/-! ## Runs -/

/-- An engine at the start of its circuit mirrors the full register before any step. -/
theorem AtStart.mirrors {engine : Engine ℝ ℝ} (h : AtStart c engine) (hd : 0 < c.dim)
    (draws : Draws ℝ) (events : List Event) :
    Mirrors c [] (FullRun.start c draws) ⟨engine, draws, events⟩ where
  keys_eq := rfl
  findings := .nil _ _
  restricts := h.state_eq ▸ .start hd c.qudits
  dits_eq := h.dits_eq
  probs_eq := h.probs_eq
  draws_eq := rfl

/-- How a run of the first steps stands to one that keeps all qudits: both went through, and the
engine mirrors the other run. -/
def RunMirrors (c : Circuit ℝ) (engine : Engine ℝ ℝ) (draws : Draws ℝ) (t : ℕ) (run : Run ℝ ℝ) :
    Prop :=
  run.engine.preStep = engine.preStep ∧ run.engine.settings = engine.settings ∧
    Tracks c (c.measuredAfter t) run.engine ∧
      ∃ full, FullRun.run c (c.log.take t) (.start c draws) = .ok full ∧
        Mirrors c (c.measuredAfter t) full run

/-- After each of its first steps that it carries out, a sane engine without noise mirrors the run
that keeps all qudits. -/
theorem ends_run_mirrors {engine : Engine ℝ ℝ} (hsane : Sane c engine) (hstart : AtStart c engine)
    (hplain : engine.preStep = .nothing) (draws : Draws ℝ) (events : List Event) (t : ℕ) :
    Ends ((c.views.take t).forM (execute checking c)) ⟨engine, draws, events⟩
      (fun _ run => RunMirrors c engine draws t run)
      fun fault _ => (checking = true ∨ engine.settings.checkNormalization = true) ∧ fault.IsNorm ∨
        FullRun.run c (c.log.take t) (.start c draws) = .error fault := by
  have hordered := hsane.wellFormed.ordered
  have hpos : 0 < c.dim := Nat.lt_of_lt_of_le Nat.two_pos hsane.two_le_dim
  have htake : c.log.take (min t c.log.length) = c.log.take t := List.take_eq_take_min.symm
  refine Ends.mono (ends_steps hsane.wellFormed.ordered
    (fun i run => RunMirrors c engine draws i run)
    ⟨rfl, rfl, hstart.tracks hsane.fits, _, rfl, hstart.mirrors hpos draws events⟩ ?_)
    (fun _ run hinv => ?_) fun _ _ hfault => hfault
  · intro i hip hit run hinv
    obtain ⟨hpre, hsettings, htracks, full, hfull, hmirrors⟩ := hinv
    have hrecorded := hsane.wellFormed.recorded _ (List.getElem_mem hip)
    have hlive := hsane.wellFormed.live hip
    -- the other run goes one step further as well
    have hnext : FullRun.run c (c.log.take (i + 1)) (.start c draws) = full.step c c.log[i] := by
      rw [List.take_succ_eq_append_getElem hip, FullRun.run_append_singleton, hfull]
      rfl
    -- The engine stands where the step leaves it by the step lemma for validity, and mirrors the
    -- other run by the step lemma for refinement.
    refine ((ends_execute_recorded hsane.two_le_dim hsane.size_lt htracks hrecorded hlive).and
      (ends_execute_mirrors hsane.two_le_dim htracks (hpre.trans hplain) hmirrors hrecorded
        hlive)).mono (fun _ run' hrun' => ?_) fun fault _ hfault => ?_
    · obtain ⟨htracks', hpre', hsettings', full', hfull', hmirrors'⟩ := hrun'
      rw [← Circuit.measuredAfter_succ hip] at htracks' hmirrors'
      exact ⟨hpre'.trans hpre, hsettings'.trans hsettings, htracks', full', hnext.trans hfull',
        hmirrors'⟩
    · rcases hfault.2 with ⟨hcheck, hnorm⟩ | hstep
      · rw [hsettings] at hcheck
        exact .inl ⟨hcheck, hnorm⟩
      · right
        -- a run that failed at this step also fails with the later ones
        obtain ⟨later, hlater⟩ : c.log.take (i + 1) <+: c.log.take t :=
          List.take_prefix_take_left hit
        rw [← hlater]
        exact FullRun.run_append_of_error (hnext.trans hstep) later
  · unfold RunMirrors Circuit.measuredAfter at hinv ⊢
    rwa [htake] at hinv

/-- Removing measured qudits implements keeping them. Let a circuit that was built run on an engine
without noise that was just made or just reset, over the real numbers. If the first `t` steps go
through, they do so for the register that keeps all qudits as well, with the same draws, dits and
probabilities. The state has an amplitude for each index of the live qudits, and it is that of the
full register at the index whose measured digits are those found and whose live digits are, in
ascending order, those of the index. If a step fails, a check of norms was on and refused, or the
register that keeps all qudits fails alike. -/
theorem run_refines [Capacity] {engine : Engine ℝ ℝ} (h : Ready c engine)
    (hplain : engine.preStep = .nothing) (checking : Bool) (draws : Draws ℝ) (events : List Event)
    (t : ℕ) :
    Ends ((c.views.take t).forM (execute checking c)) ⟨engine, draws, events⟩
      (fun _ run => ∃ full, FullRun.run c (c.log.take t) (.start c draws) = .ok full ∧
        run.draws = full.draws ∧ run.engine.dits = full.dits ∧ run.engine.probs = full.probs ∧
          full.found.map Prod.fst = c.measuredAfter t ∧
            run.engine.state.size = c.dim ^ Layout.place (c.measuredAfter t) c.qudits ∧
              ∀ y < run.engine.state.size, (run.engine.state.amplitude y).toComplex =
                full.psi (fullIndex c.dim c.qudits full.found y))
      fun fault _ => (checking = true ∨ engine.settings.checkNormalization = true) ∧ fault.IsNorm ∨
        FullRun.run c (c.log.take t) (.start c draws) = .error fault := by
  obtain ⟨hsane, hstart⟩ := h.sane
  refine (ends_run_mirrors hsane hstart hplain draws events t).mono (fun _ run hinv => ?_)
    fun _ _ hfault => hfault
  obtain ⟨-, -, htracks, full, hfull, hmirrors⟩ := hinv
  refine ⟨full, hfull, hmirrors.draws_eq, hmirrors.dits_eq, hmirrors.probs_eq, hmirrors.keys_eq,
    htracks.size_state, fun y hy => ?_⟩
  rw [hmirrors.restricts.size_eq] at hy
  exact hmirrors.restricts.amplitude_eq y hy

section

attribute [local instance] Capacity.common

/-- Two qubits of which the lower one is measured, on a new engine. -/
theorem run_refines_pair :
    let c : Circuit ℝ := (Circuit.empty 0 2 1 2 "" (fun _ => "") fun _ => 0).attemptAll
      [.measureZ (.int 0) (.int 0) ""]
    let engine : Engine ℝ ℝ := start c {} .nothing
    Ready c engine ∧ engine.preStep = .nothing ∧
      Ends ((c.views.take 1).forM (execute false c)) ⟨engine, .ofList [], []⟩
        (fun _ run => ∃ full, FullRun.run c (c.log.take 1) (.start c (.ofList [])) = .ok full ∧
          run.draws = full.draws ∧ run.engine.dits = full.dits ∧ run.engine.probs = full.probs ∧
            full.found.map Prod.fst = c.measuredAfter 1 ∧
              run.engine.state.size = c.dim ^ Layout.place (c.measuredAfter 1) c.qudits ∧
                ∀ y < run.engine.state.size, (run.engine.state.amplitude y).toComplex =
                  full.psi (fullIndex c.dim c.qudits full.found y))
        fun fault _ => (false = true ∨ engine.settings.checkNormalization = true) ∧
          fault.IsNorm ∨ FullRun.run c (c.log.take 1) (.start c (.ofList [])) = .error fault := by
  intro c engine
  have hcreate : Circuit.create? 0 (.int 2) (.int 1) (.int 2) "" (fun _ => .ok fun _ => "")
      (fun _ => 0) = .ok (Circuit.empty 0 2 1 2 "" (fun _ => "") fun _ => 0 : Circuit ℝ) := rfl
  have hbuilt : c.Built := ⟨0, .int 2, .int 1, .int 2, "", _, _, _, _, hcreate, rfl⟩
  have hready : Ready c engine := .made
    (.intro {} none .nothing hbuilt rfl (fun channel hchannel => nomatch hchannel) rfl)
  exact ⟨hready, rfl, run_refines hready rfl false (.ofList []) [] 1⟩

end

end Engine

end QuditSim
