import QuditSim.Proofs.Engine.Advance
import QuditSim.Tensor.Precision

/-!
# Runs of circuits that were built

What the checks of a circuit refuse while it is built, its engine need not refuse any more: running
a circuit that was built by calls fails for numeric reasons only, and before every step the engine
knows exactly the qudits that were measured so far.

- `Engine.ends_execute_recorded` is the step lemma: a recorded step on live qudits takes an engine
  from where it stands to where the step leaves it.
- `Engine.ends_run` is the run lemma over any number of first steps, and `Engine.run_valid` reads
  off it what a ready engine has measured.
-/

namespace QuditSim

namespace Circuit

variable {S : Type}

/-- The targets of the measurements among the first steps. -/
def measuredAfter (c : Circuit S) (t : Nat) : List Int := (c.log.take t).flatMap Step.retired

theorem measuredAfter_succ {c : Circuit S} {t : Nat} (ht : t < c.log.length) :
    c.measuredAfter (t + 1) = c.measuredAfter t ++ c.log[t].retired := by
  unfold measuredAfter
  rw [List.take_succ_eq_append_getElem ht, List.flatMap_append, List.flatMap_singleton]

/-- A step of a well-formed circuit refers to no qudit that was measured before. -/
theorem WellFormed.live {c : Circuit S} (h : c.WellFormed) {t : Nat} (ht : t < c.log.length) :
    ∀ q ∈ c.log[t].qudits, q ∉ c.measuredAfter t := by
  intro q hq hmem
  obtain ⟨earlier, hearlier, hretired⟩ := List.mem_flatMap.mp hmem
  -- the qudit was measured by an earlier step, and no later step refers to it
  obtain ⟨i, hi, rfl⟩ := List.mem_take_iff_getElem.mp hearlier
  have hlt : i < t := Nat.lt_of_lt_of_le hi (Nat.min_le_left _ _)
  exact List.pairwise_iff_getElem.mp h.apart i t (Nat.lt_trans hlt ht) ht hlt q hretired hq

/-- The qudits that a circuit marks as measured are the targets of its measurements. -/
theorem WellFormed.measuredQudits_eq {c : Circuit S} (h : c.WellFormed) :
    c.measuredQudits =
      (List.range c.qudits).filter fun q : Nat => (q : Int) ∈ c.log.flatMap Step.retired := by
  unfold measuredQudits isMeasured
  rw [← h.measured_eq]
  cases c.measured with
  | nil => simp
  | cons q rest => simp

end Circuit

namespace Engine

open Execution

variable {S R : Type} {c : Circuit S}

variable [Scalar S] [Scalar R]

/-- An engine at the start of its circuit stands after no step. -/
theorem AtStart.tracks {engine : Engine S R} (h : AtStart c engine) (hfits : Fits c engine) :
    Tracks c [] engine where
  fits := hfits
  gone_nodup := List.Pairwise.nil
  gone_inRange _ hq := nomatch hq
  layout_eq := by rw [h.layout_eq, Layout.without_nil]
  size_state := by
    rw [h.state_eq, Layout.place_nil]
    exact StateVector.size_build _ _
  length_dits := by rw [h.dits_eq, List.length_replicate]
  dits_lt := by
    rw [h.dits_eq]
    intro v hv
    rw [List.eq_of_mem_replicate hv]
    decide

variable [Rounding S R] [Rounding R S]

/-- A recorded measurement of live qudits takes an engine to where it leaves it, or it fails for a
numeric reason. -/
theorem ends_performMeasurement_recorded {checking : Bool} {gone : List Int} {run : Run S R}
    {step : MeasureStep} {ip : Nat} (hd : 2 ≤ c.dim) (hextent : c.dim ^ c.qudits < 2 ^ 63)
    (h : Tracks c gone run.engine) (hstep : step.Recorded c)
    (hlive : ∀ q ∈ step.targets, q ∉ gone) :
    Ends (performMeasurement checking c ip step (step.targets.map (seat gone))) run
      (fun _ run' => Tracks c (gone ++ step.targets) run'.engine)
      fun fault _ => fault.IsNumeric :=
  (ends_performMeasurement_advances hd hextent h.toStands hstep hlive).mono
    (fun _ _ hadvances => h.advance hadvances) fun _ _ hfault => hfault.1

/-- A recorded step on live qudits takes an engine to where the step leaves it, or it fails for a
numeric reason. -/
theorem ends_execute_recorded {checking : Bool} {gone : List Int} {run : Run S R} {step : Step}
    {ip : Nat} (hd : 2 ≤ c.dim) (hextent : c.dim ^ c.qudits < 2 ^ 63)
    (h : Tracks c gone run.engine) (hstep : step.Recorded c)
    (hlive : ∀ q ∈ step.qudits, q ∉ gone) :
    Ends (execute checking c (step.view c.serial ip)) run
      (fun _ run' => Tracks c (gone ++ step.retired) run'.engine)
      fun fault _ => fault.IsNumeric := by
  refine (ends_execute_advances hd hextent h.toStands hstep hlive).mono
    (fun _ _ hadvances => h.advance hadvances) fun _ _ hfault => ?_
  exact hfault.1.resolve_right h.not_overflows

/-- What holds before the first step of a circuit and is kept by each of its first `t` steps holds
after them. -/
theorem ends_steps {checking : Bool} (hordered : c.Ordered) {t : Nat} {run : Run S R}
    {E : EngineFault → Run S R → Prop} (I : Nat → Run S R → Prop) (h : I 0 run)
    (hstep : ∀ i (hi : i < c.log.length), i < t → ∀ run', I i run' →
      Ends (execute checking c (c.log[i].view c.serial i)) run'
        (fun _ run'' => I (i + 1) run'') E) :
    Ends ((c.views.take t).forM (execute checking c)) run
      (fun _ run' => I (min t c.log.length) run') E := by
  have hviews : c.views.length = c.log.length := by
    rw [Circuit.views_eq hordered, List.length_mapIdx]
  rw [← hviews, ← List.length_take]
  refine ends_forM_invariant I h fun i hi run' hrun' => ?_
  rw [List.length_take, hviews] at hi
  have hview : (c.views.take t)[i] = c.log[i].view c.serial i := by
    simp [Circuit.views_eq hordered]
  rw [hview]
  exact hstep i (by omega) (by omega) run' hrun'

/-- After each of its first steps that it carries out, a sane engine at the start of its circuit
stands where the step leaves it. -/
theorem ends_run (checking : Bool) (run : Run S R) (hsane : Sane c run.engine)
    (hstart : AtStart c run.engine) (t : Nat) :
    Ends ((c.views.take t).forM (execute checking c)) run
      (fun _ run' => Tracks c (c.measuredAfter t) run'.engine) fun fault _ => fault.IsNumeric := by
  -- more steps than the circuit has are all of its steps
  have hsame : c.measuredAfter (min t c.log.length) = c.measuredAfter t := by
    unfold Circuit.measuredAfter
    rw [← List.take_eq_take_min]
  rw [← hsame]
  refine ends_steps hsane.wellFormed.ordered
    (fun i run' => Tracks c (c.measuredAfter i) run'.engine) (hstart.tracks hsane.fits) ?_
  intro i hip _ run' hrun'
  rw [Circuit.measuredAfter_succ hip]
  exact ends_execute_recorded hsane.two_le_dim hsane.size_lt hrun'
    (hsane.wellFormed.recorded _ (List.getElem_mem hip)) (hsane.wellFormed.live hip)

/-- Running a circuit that was built on an engine that was just made or just reset fails for
numeric reasons only. After any number of first steps, the engine has measured exactly the targets
of the measurements among them, its state has the amplitudes of the others, and after the last step
it has measured what the circuit says. -/
theorem run_valid [Capacity] {engine : Engine S R} (h : Ready c engine) (checking : Bool)
    (draws : Draws S) (events : List Event) (t : Nat) :
    Ends ((c.views.take t).forM (execute checking c)) ⟨engine, draws, events⟩
      (fun _ run => run.engine.measured =
          (List.range c.qudits).filter (fun q : Nat => (q : Int) ∈ c.measuredAfter t) ∧
        run.engine.state.size = c.dim ^ (c.qudits - run.engine.measured.length) ∧
          (c.stepCount ≤ t → run.engine.measured = c.measuredQudits))
      fun fault _ => fault.IsNumeric := by
  obtain ⟨hsane, hstart⟩ := h.sane
  refine (ends_run checking ⟨engine, draws, events⟩ hsane hstart t).mono
    (fun _ run htracks => ?_) fun _ _ hfault => hfault
  have hmeasured : run.engine.measured =
      (List.range c.qudits).filter fun q : Nat => (q : Int) ∈ c.measuredAfter t := by
    unfold measured
    rw [htracks.layout_eq, Layout.measured_without]
  refine ⟨hmeasured, ?_, fun ht => ?_⟩
  -- live and measured qudits together are all qudits
  · have hcount := Layout.place_add_length_measured c.qudits (c.measuredAfter t)
    rw [htracks.size_state, hmeasured]
    congr 1
    omega
  · rw [hmeasured, hsane.wellFormed.measuredQudits_eq, Circuit.measuredAfter,
      List.take_of_length_le (by rw [hsane.wellFormed.ordered.length_log]; exact ht)]

section

attribute [local instance] Capacity.common

/-- A qubit that is measured, on a new engine: before the step no qudit is measured, and after it
the one that the circuit marks. -/
theorem run_valid_qubit :
    let c : Circuit Float := (Circuit.empty 0 1 1 2 "" (fun _ => "") fun _ => 0).attemptAll
      [.measureZ (.int 0) (.int 0) ""]
    let engine : Engine Float Float := start c {} .nothing
    Ready c engine ∧
      Ends ((c.views.take 1).forM (execute false c)) ⟨engine, .ofList [], []⟩
        (fun _ run => run.engine.measured =
            (List.range c.qudits).filter (fun q : Nat => (q : Int) ∈ c.measuredAfter 1) ∧
          run.engine.state.size = c.dim ^ (c.qudits - run.engine.measured.length) ∧
            (c.stepCount ≤ 1 → run.engine.measured = c.measuredQudits))
        fun fault _ => fault.IsNumeric := by
  intro c engine
  have hcreate : Circuit.create? 0 (.int 1) (.int 1) (.int 2) "" (fun _ => .ok fun _ => "")
      (fun _ => 0) = .ok (Circuit.empty 0 1 1 2 "" (fun _ => "") fun _ => 0 : Circuit Float) := rfl
  have hbuilt : c.Built := ⟨0, .int 1, .int 1, .int 2, "", _, _, _, _, hcreate, rfl⟩
  have hready : Ready c engine := .made
    (.intro {} none .nothing hbuilt rfl (fun channel hchannel => nomatch hchannel) rfl)
  exact ⟨hready, run_valid hready false _ _ 1⟩

end

end Engine

end QuditSim
