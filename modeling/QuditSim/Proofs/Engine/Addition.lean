import QuditSim.Proofs.Circuit.Fidelity
import QuditSim.Proofs.Engine.Probability
import QuditSim.Proofs.Engine.Usage
import QuditSim.Proofs.Gate.Relations

/-!
# Addition of digits

Under control of a qudit, the shift is applied as often as the digit of the control says. So executing
it adds that digit to the digit of the target, modulo the dimension: every amplitude moves to the
index with the sum in place of the target digit, wherever the two qudits are in the register.

- `Engine.ends_execute_unitary`: a recorded gate with a unitary operator carries out its acts, and no
  check of norms refuses what it leaves.
- `Circuit.RecordedFor.controlled_pair` is what is recorded for an operator under control of one qudit
  on another one.
- `Gate.shift_clock_fourier`: the relations of the gates, and the addition of digits for any circuit and
  any engine in use.
-/

namespace QuditSim

open Fallible

/-! ## Equal operators -/

/-- Over the real numbers, operators that are equal are the same. -/
theorem Operator.eq_of_same {a b : Operator ℝ} (h : a.same b = true) : a = b := by
  unfold Tensor.same at h
  rw [Bool.and_eq_true, beq_iff_eq, List.all_eq_true] at h
  obtain ⟨hshape, hentries⟩ := h
  have hlength : a.entries.toList.length = b.entries.toList.length := by
    rw [Array.length_toList, Array.length_toList, a.size_entries, b.size_entries, hshape]
  refine Tensor.ext hshape (Array.toList_inj.mp ?_)
  rw [← List.forall₂_eq_eq_eq, List.forall₂_iff_zip]
  refine ⟨hlength, fun {z w} hpair => ?_⟩
  obtain ⟨hre, him⟩ := Bool.and_eq_true_iff.mp (hentries _ hpair)
  exact Amplitude.ext (eq_of_beq hre) (eq_of_beq him)

/-! ## What is recorded -/

namespace Circuit

variable {c : Circuit ℝ} {op : Operator ℝ} {q t : Int} {kind kind' name : String} {step : Step}

/-- For an operator under control of one qudit on another one, a gate with these qudits is recorded, and
the operator is stored under its key. -/
theorem RecordedFor.controlled_pair
    (h : c.RecordedFor (.ctrl (.operator op) (.one q kind) (.one t kind') name) step) :
    ∃ gate : GateStep, step = .gate gate ∧ gate.kind = .controlled .quantum .single .single ∧
      gate.controls = [q] ∧ gate.targets = [t] ∧ c.operands.get? gate.key = some op := by
  obtain ⟨before, entry, hplanned, -, rfl, hstored⟩ := h
  cases hplanned with
  | ctrl hcontrols htargets =>
    cases hcontrols
    cases htargets
    obtain ⟨known, hknown, hsame⟩ := hstored op rfl
    obtain rfl : known = op := hsame.elim id Operator.eq_of_same
    exact ⟨_, rfl, rfl, rfl, rfl, hknown⟩

end Circuit

namespace Engine

open Execution

/-! ## Gates with unitary operators -/

/-- No check of norms refuses the state of an engine: it has weight one, or norms are not checked. -/
def PassesChecks (checking : Bool) (engine : Engine ℝ ℝ) : Prop :=
  (StateVector.chanceWeight engine.state : ℝ) = 1 ∨
    checking = false ∧ engine.settings.checkNormalization = false

section Unitary

variable {c : Circuit ℝ} {gone : List Int} {checking : Bool} {run : Run ℝ ℝ}

theorem ends_checkNorm_passes (h : run.engine.PassesChecks checking)
    {Q : Unit → Run ℝ ℝ → Prop} {E : EngineFault → Run ℝ ℝ → Prop} :
    Ends checkNorm run Q E ↔ Q () run := by
  rcases h with hweight | ⟨-, hoff⟩
  · exact ends_checkNorm_normed hweight
  · unfold checkNorm
    rw [ends_bind, ends_current, hoff]
    exact Iff.rfl

/-- A recorded gate with a unitary operator on live qudits carries out its acts, and no check of norms
refuses what it leaves. -/
theorem ends_execute_unitary (run : Run ℝ ℝ) (hd : 2 ≤ c.dim) (h : Stands c gone run.engine)
    (hpre : run.engine.preStep = .nothing) (hchecks : run.engine.PassesChecks checking)
    {step : GateStep} (hstep : step.Recorded c)
    (hlive : ∀ q ∈ (Step.gate step).qudits, q ∉ gone) {op : Operator ℝ}
    (hop : c.operands.get? step.key = some op) (hunitary : op.Unitary) {list : List (Act ℝ)}
    (hlist : acts c run.engine.dits step step.controls step.targets = .ok list) (ip : ℕ) :
    Ends (execute checking c ((Step.gate step).view c.serial ip)) run
      (fun _ run' => run'.draws = run.draws ∧ run'.engine = { run.engine with
        state := (list.map (Act.rename (seat gone))).foldl (Act.total c.dim) run.engine.state })
      fun _ _ => False := by
  have hacts := live_of_acts hstep hlive hlist
  have hkeeps := isometric_of_acts hd hstep hop hunitary hlist
  -- whatever state there is on the way, its weight is that of the first one
  have hweight (k : ℕ) : (StateVector.chanceWeight (((list.map (Act.rename (seat gone))).take
      k).foldl (Act.total c.dim) run.engine.state) : ℝ) =
        StateVector.chanceWeight run.engine.state := by
    rw [← List.map_take]
    exact chanceWeight_foldl_total hd h (fun act hact => (hacts act (List.mem_of_mem_take hact)).1)
      (fun act hact => (hacts act (List.mem_of_mem_take hact)).2)
      fun act hact => hkeeps act (List.mem_of_mem_take hact)
  refine ends_execute h.fits.serial_eq.symm (resolve_gate h hstep hlive) ?_
  rw [ends_prepare_nothing hpre]
  intro run' hengine hdraws
  rw [← hengine] at h hlist hchecks hweight ⊢
  rw [← hdraws]
  refine (ends_performGate hd h hlist (fit_of_acts_seat hstep hlive hlist)).mono
    (fun _ run'' hrun'' => ?_) fun fault _ ⟨k, hrefused⟩ => ?_
  · obtain ⟨hdraws'', hengine''⟩ := hrun''
    -- the norm is checked once more at the end of the step
    have hpasses : run''.engine.PassesChecks checking := by
      have hlast := hweight list.length
      rw [List.take_of_length_le (by rw [List.length_map])] at hlast
      rw [hengine'']
      exact hchecks.imp hlast.trans id
    rw [ends_checkNorm_passes hpasses]
    exact ⟨hdraws'', hengine''⟩
  · rcases hchecks with hone | ⟨hoff, -⟩
    · obtain ⟨cause, -, hcause⟩ := hrefused
      rw [StateVector.checked_of_weight checking ((hweight k).trans hone)] at hcause
      cases hcause
    · exact Bool.false_ne_true (hoff.symm.trans hrefused.isNorm.1)

end Unitary

/-! ## Addition -/

/-- Executing a step adds the digit of one qudit to that of another one: both have a position in the
state, and the step, which meets no fault and draws nothing, leaves all of the engine but the state, in
which each amplitude moves to the index with the sum, modulo the dimension, as the second digit. -/
def AddsDigit (c : Circuit ℝ) (q t : Int) (engine : Engine ℝ ℝ) (view : StepView) : Prop :=
  ∃ p p', engine.layout.position? (.int q) = .ok (some p) ∧
    engine.layout.position? (.int t) = .ok (some p') ∧ p ≠ p' ∧
      ∀ (checking : Bool) (draws : Draws ℝ) (events : List Event), engine.PassesChecks checking →
        Ends (execute checking c view) ⟨engine, draws, events⟩
          (fun _ run => run.draws = draws ∧ run.engine = { engine with state := run.engine.state } ∧
            StateVector.Adds c.dim p' (digit c.dim p) engine.state run.engine.state ∧
              ∀ x < engine.state.size, engine.state = .basisState engine.state.size x →
                ∃ y < engine.state.size, StateVector.Shifted c.dim p' (digit c.dim p x) x y ∧
                  run.engine.state = .basisState engine.state.size y)
          fun _ _ => False

/-- On live qudits, a shift that was recorded under control of one of them on the other one adds their
digits. -/
theorem addsDigit_of_recorded {c : Circuit ℝ} {gone : List Int} {engine : Engine ℝ ℝ} {q t : Int}
    (hd : 2 ≤ c.dim) (h : Stands c gone engine) (hpre : engine.preStep = .nothing)
    {gate : GateStep} (hgate : gate.Recorded c)
    (hkind : gate.kind = .controlled .quantum .single .single) (hcontrols : gate.controls = [q])
    (htargets : gate.targets = [t]) (hop : c.operands.get? gate.key = some (Gate.shift c.dim))
    (hq : q ∉ gone) (ht : t ∉ gone) (ip : ℕ) :
    AddsDigit c q t engine ((Step.gate gate).view c.serial ip) := by
  have hquantum : gate.kind.control? = some .quantum := by rw [hkind]; rfl
  have hfit := hgate.controls
  unfold Circuit.ControlsFit at hfit
  rw [hquantum, hcontrols, htargets] at hfit
  obtain ⟨-, hqrange, hdisjoint⟩ := hfit
  have hqrange : InRange c.qudits q := hqrange q (List.mem_singleton.mpr rfl)
  have htrange : InRange c.qudits t := hgate.targets.inRange t (by simp [htargets])
  have hne : q ≠ t := by simpa using hdisjoint
  have hqudits : (Step.gate gate).qudits = [q, t] := by
    rw [Step.qudits_of_quantum hquantum, hcontrols, htargets]
    rfl
  have hlive : ∀ r ∈ (Step.gate gate).qudits, r ∉ gone := by
    rw [hqudits]
    simp [hq, ht]
  -- one target needs no joint operator, so the step is one act, the controlled shift
  have hjoint : jointOperand c gate gate.targets.length = .ok (Gate.shift c.dim) :=
    jointOperand_self (by simp [hkind]) hop _
  have hlist : acts c engine.dits gate gate.controls gate.targets =
      .ok [.controlled (Gate.shift c.dim) [q] [t]] := by
    rw [acts_of_quantum hquantum, hjoint, hcontrols, htargets]
    rfl
  -- two qudits that are left are at two places of the state
  have hposition {r : Int} (hr : InRange c.qudits r) (hlive : r ∉ gone) :
      engine.layout.position? (.int r) = .ok (some (Layout.place gone r.toNat)) := by
    rw [h.layout_eq, Layout.position?, Layout.entry_without hr, if_neg hlive]
  have hplaces : Layout.place gone q.toNat ≠ Layout.place gone t.toNat := fun heq =>
    hne (seat_injective hqrange htrange hq ht (congrArg Int.ofNat heq))
  refine ⟨_, _, hposition hqrange hq, hposition htrange ht, hplaces,
    fun checking draws events hchecks => ?_⟩
  refine (ends_execute_unitary ⟨engine, draws, events⟩ hd h hpre hchecks hgate hlive hop
    (Gate.relations hd).shift_unitary hlist ip).mono (fun _ run hrun => ?_) fun _ _ hfalse => hfalse
  obtain ⟨hdraws, hengine⟩ := hrun
  -- the state that is left is that of the shift under control of one position
  have hstate : ([Act.controlled (Gate.shift c.dim : Operator ℝ) [q] [t]].map
      (Act.rename (seat gone))).foldl (Act.total c.dim) engine.state =
        StateVector.applyControlledOn c.dim (Gate.shift c.dim)
          [Layout.place gone q.toNat] [Layout.place gone t.toNat] engine.state := by
    simp [Act.rename, Act.total, toNat_seat]
  have hadds := StateVector.adds_controlled_shift hd hplaces engine.state
  rw [← hstate] at hadds
  rw [hengine]
  refine ⟨hdraws, rfl, hadds, fun x hx hbasis => ?_⟩
  rw [h.size_state] at hx hbasis ⊢
  have hposition : Layout.place gone t.toNat < Layout.place gone c.qudits :=
    Layout.place_lt (htrange.toNat_not_mem ht) htrange.toNat_lt
  exact hadds.exists_basisState hd hposition (digit_lt (by omega) _)
    (fun z z' hsame => hsame _ (List.mem_singleton.not.mpr hplaces)) hx hbasis

end Engine

/-- In every dimension, the shift, the clock and the Fourier gate satisfy their relations. And in every
circuit of this dimension that accepted the shift under control of one qudit on another one, whatever
was asked of it before and after that, an engine without noise that did not measure the two qudits,
however it was used, adds their digits when it executes the step. -/
theorem Gate.shift_clock_fourier [Capacity] {d : ℕ} (hd : 2 ≤ d) :
    Gate.Relations d ∧
      ∀ (c c' : Circuit ℝ) (q t : Int) (kind kind' name : String) (more : List (Call ℝ))
        (engine : Engine ℝ ℝ), c.Built → c.dim = d →
        c.append (.ctrl (.operator (Gate.shift d)) (.one q kind) (.one t kind') name) = .ok c' →
        Engine.Used (c'.attemptAll more) engine → engine.preStep = .nothing →
        ¬ engine.Lost q → ¬ engine.Lost t →
        ∃ view ∈ (c'.attemptAll more).views, view.ip = c.stepCount ∧
          Engine.AddsDigit (c'.attemptAll more) q t engine view := by
  refine ⟨Gate.relations hd, ?_⟩
  intro c c' q t kind kind' name more engine hbuilt hdim haccepted hused hpre hq ht
  have hordered := hbuilt.wellFormed.ordered
  obtain ⟨step, hlog, hordered', hrecorded, hgoes, -⟩ := Circuit.append_records hordered haccepted
  obtain ⟨gate, rfl, hkind, hcontrols, htargets, hop⟩ := hrecorded.controlled_pair
  -- the step and its operator stay where they are when more is asked of the circuit
  have hextends := Circuit.extends_attemptAll hordered' more
  set later := c'.attemptAll more with hlater
  have hdim' : later.dim = d := by rw [hlater, Circuit.dim_attemptAll, hgoes.dim_eq, hdim]
  obtain ⟨rest, hrest⟩ := hextends.log
  have hplace : c.log.length < later.log.length := by
    rw [← hrest, hlog]
    simp only [List.length_append, List.length_singleton]
    omega
  have hstep : later.log[c.log.length] = .gate gate := by
    simp [← hrest, hlog]
  have hsane := hused.reachable.sane
  obtain ⟨gone, hstands, -⟩ := hused.stands
  have hgate : gate.Recorded later := by
    have hrecorded := hsane.wellFormed.recorded _ (List.getElem_mem hplace)
    rwa [hstep] at hrecorded
  have hqudits : ∀ p ∈ (Step.gate gate).qudits, InRange later.qudits p :=
    Engine.inRange_of_recorded hgate
  rw [Step.qudits_of_quantum (by rw [hkind]; rfl), hcontrols, htargets] at hqudits
  rw [hstands.lost_iff (hqudits q (by simp))] at hq
  rw [hstands.lost_iff (hqudits t (by simp))] at ht
  refine ⟨(Step.gate gate).view later.serial c.log.length, ?_, ?_, ?_⟩
  · rw [Circuit.mem_views_iff hsane.wellFormed.ordered]
    exact ⟨_, hplace, by rw [hstep]⟩
  · exact congrArg Int.ofNat hordered.length_log
  · refine Engine.addsDigit_of_recorded hsane.two_le_dim hstands hpre hgate hkind hcontrols htargets ?_
      hq ht _
    rw [hdim']
    exact hextends.lookup _ _ hop

section

attribute [local instance] Capacity.common

/-- Two qutrits, of which the first one controls the shift of the second one, and a new engine for
them: it adds their digits when it executes the step. -/
theorem Gate.shift_clock_fourier_qutrits :
    let c : Circuit ℝ := Circuit.empty 0 2 0 3 "" (fun _ => "") fun _ => 0
    let call : Call ℝ := .ctrl (.operator (Gate.shift 3)) (.one 0 "int") (.one 1 "int") ""
    let engine : Engine ℝ ℝ := Engine.start (c.attempt call) {} .nothing
    2 ≤ 3 ∧ Gate.Relations 3 ∧ c.append call = .ok (c.attempt call) ∧
      Engine.Used (c.attempt call) engine ∧ ¬ engine.Lost 0 ∧ ¬ engine.Lost 1 ∧
        engine.PassesChecks true ∧
          ∃ view ∈ (c.attempt call).views, view.ip = 0 ∧
            Engine.AddsDigit (c.attempt call) 0 1 engine view := by
  intro c call engine
  have hcreate : Circuit.create? 0 (.int 2) (.int 0) (.int 3) "" (fun _ => .ok fun _ => "")
      (fun _ => 0) = .ok c := rfl
  have hbuilt : c.Built := ⟨0, .int 2, .int 0, .int 3, "", _, _, _, [], hcreate, rfl⟩
  have haccepted : c.append call = .ok (c.attempt call) := rfl
  have hmade : Engine.Made (c.attempt call) engine :=
    .intro {} none .nothing (hbuilt.attempt call) rfl (fun channel hchannel => nomatch hchannel) rfl
  have hused : Engine.Used (c.attempt call) engine := .made hmade
  have hstands := (Engine.Ready.made hmade).stands.1
  have hlive (q : Int) (hq : InRange 2 q) : ¬ engine.Lost q := by
    rw [hstands.lost_iff hq]
    exact List.not_mem_nil
  have hfirst := hlive 0 (by decide)
  have hsecond := hlive 1 (by decide)
  obtain ⟨hrelations, hadds⟩ := Gate.shift_clock_fourier (by decide : 2 ≤ 3)
  exact ⟨by decide, hrelations, haccepted, hused, hfirst, hsecond,
    .inl (StateVector.chanceWeight_zero (by decide) 2),
    hadds c _ 0 1 "int" "int" "" [] engine hbuilt rfl haccepted hused rfl hfirst hsecond⟩

end

end QuditSim
