import Mathlib.Algebra.BigOperators.Group.List.Lemmas
import QuditSim.Proofs.Engine.Action
import QuditSim.Proofs.Engine.Effect

/-!
# Gates on several targets

A gate that lays an operator of one qudit over several targets does the same as one gate for each of
its targets, in any order. A gate without control acts on one target after the other, while gates
under control form a Kronecker power and then a power of that, so the two are compared as maps of
the amplitudes of the full register.

- `FullRun.mapOf_kronPow`, `FullRun.mapOf_pow_kronPow` and `FullRun.mapOf_controlled_kronPow` take
  such a map apart into the maps of the targets.
- `Engine.sameOnEach` says how the acts of a gate and those of its gates on one target each stand
  to each other, and `Engine.targets_one_by_one` that these have the same effect.
-/

namespace QuditSim

/-! ## Acts on one target each -/

namespace FullRun

variable {d n : ℕ} {op : Operator ℝ} {targets : List Int} {k : ℕ}

/-- Acts of which each has its target are done in any order if their maps commute. -/
theorem foldl_act_of_perm (hd : 2 ≤ d) {act : Int → Act ℝ} {order : List Int}
    (horder : order.Perm targets) (hfit : ∀ t ∈ targets, (act t).Fits d n)
    (hcommute : (targets.map fun t => mapOf d (act t)).Pairwise Commute) (psi : ℕ → ℂ) :
    (order.map act).foldl (FullRun.act d) psi =
      (targets.map fun t => mapOf d (act t)).prod psi := by
  have hfit' : ∀ a ∈ order.map act, a.Fits d n := by
    intro a ha
    obtain ⟨t, ht, rfl⟩ := List.mem_map.mp ha
    exact hfit t (horder.mem_iff.mp ht)
  -- the map of the act that is done last stands in front
  have hperm : (targets.map fun t => mapOf d (act t)).Perm
      ((order.map act).map (mapOf d)).reverse := by
    rw [List.map_map]
    exact (horder.symm.map _).trans (List.reverse_perm _).symm
  rw [foldl_act_eq_prod hd hfit', ← hperm.prod_eq' hcommute]

/-- Acts without control on one target each are local to the targets. -/
theorem localTo_mapOf_plain (hd : 0 < d) : ∀ f ∈ targets.map fun t => mapOf d (.plain op [t]),
    LocalTo d (targets.map Int.toNat) f := by
  intro f hf
  obtain ⟨t, ht, rfl⟩ := List.mem_map.mp hf
  refine (localTo_operatorOn hd op _).mono fun p hp => ?_
  rw [List.mem_singleton.mp hp]
  exact List.mem_map_of_mem ht

section Laid

variable (hd : 2 ≤ d) (hop : op.shape = [d, d]) (htargets : TargetList n targets)

include hd htargets

/-- Acts without control on one target each commute. -/
theorem pairwise_commute_mapOf :
    (targets.map fun t => mapOf d (.plain op [t])).Pairwise Commute := by
  have hpairs : ((targets.map Int.toNat).map fun t => operatorOn d op [t]).Pairwise Commute :=
    pairwise_commute_operatorOn hd (nodup_places htargets)
  rwa [List.map_map] at hpairs

/-- Acts under control on one target each commute. -/
theorem pairwise_commute_mapOf_controlled {controls : List Int}
    (hcontrols : ∀ q ∈ controls, InRange n q) (hdisjoint : ∀ q ∈ controls, q ∉ targets) :
    (targets.map fun t => mapOf d (.controlled op controls [t])).Pairwise Commute := by
  have hoff := not_mem_places hcontrols htargets.inRange hdisjoint
  have hplain : (targets.map fun t => mapOf d (.plain op [t])).Pairwise Commute :=
    pairwise_commute_mapOf hd htargets
  have hpairs := pairwise_commute_selected
    (fun x y hxy => exponent_eq_of_sameOff hoff hxy) (localTo_mapOf_plain (by omega)) hplain
  rwa [List.map_map] at hpairs

include hop

/-- Acts without control on one target each are done in any order. -/
theorem foldl_plain_of_perm {order : List Int} (horder : order.Perm targets) (psi : ℕ → ℂ) :
    (order.map fun t => .plain op [t]).foldl (FullRun.act d) psi =
      (targets.map fun t => mapOf d (.plain op [t])).prod psi := by
  have hfit : ∀ t ∈ targets, (Act.plain op [t]).Fits d n := by
    intro t ht
    refine ⟨⟨List.cons_ne_nil _ _, List.nodup_singleton t, fun q hq => ?_⟩, by simpa using hop⟩
    rw [List.mem_singleton.mp hq]
    exact htargets.inRange t ht
  exact foldl_act_of_perm hd horder hfit (pairwise_commute_mapOf hd htargets) psi

/-- A Kronecker power acts on each of its targets. -/
theorem mapOf_kronPow (hlength : targets.length = k + 1) :
    mapOf d (.plain (op.kronPow k) targets) =
      (targets.map fun t => mapOf d (.plain op [t])).prod := by
  have hprod := operatorOn_kronPow hd hop (nodup_places htargets)
    ((List.length_map ..).trans hlength)
  rwa [List.map_map] at hprod

/-- A power of a Kronecker power acts as the power on each of its targets. -/
theorem mapOf_pow_kronPow (hlength : targets.length = k + 1) (v : ℕ) :
    mapOf d (.plain ((op.kronPow k).pow v) targets) =
      (targets.map fun t => mapOf d (.plain (op.pow v) [t])).prod := by
  have hnodup := nodup_places htargets
  have hshape : (op.kronPow k).shape =
      [d ^ (targets.map Int.toNat).length, d ^ (targets.map Int.toNat).length] := by
    rw [List.length_map, hlength]
    exact Tensor.shape_kronPow hop k
  have hsingle (t : ℕ) : operatorOn d (op.pow v) [t] = operatorOn d op [t] ^ v :=
    operatorOn_pow hd (List.nodup_singleton t) (by simpa using hop) v
  have hpow : mapOf d (.plain ((op.kronPow k).pow v) targets) =
      mapOf d (.plain (op.kronPow k) targets) ^ v := operatorOn_pow hd hnodup hshape v
  rw [hpow, mapOf_kronPow hd hop htargets hlength,
    prod_pow_of_commute (pairwise_commute_mapOf hd htargets), List.map_map]
  congr 1
  exact List.map_congr_left fun t _ => (hsingle t.toNat).symm

/-- A Kronecker power under control acts on each of its targets under the same control. -/
theorem mapOf_controlled_kronPow {controls : List Int} (hcontrols : ∀ q ∈ controls, InRange n q)
    (hdisjoint : ∀ q ∈ controls, q ∉ targets) (hlength : targets.length = k + 1) :
    mapOf d (.controlled (op.kronPow k) controls targets) =
      (targets.map fun t => mapOf d (.controlled op controls [t])).prod := by
  have hoff := not_mem_places hcontrols htargets.inRange hdisjoint
  have hselect : mapOf d (.controlled (op.kronPow k) controls targets) =
      selected (exponent d (controls.map Int.toNat)) (mapOf d (.plain (op.kronPow k) targets)) :=
    rfl
  rw [hselect, mapOf_kronPow hd hop htargets hlength,
    selected_prod (fun x y hxy => exponent_eq_of_sameOff hoff hxy) (localTo_mapOf_plain (by omega))
      (pairwise_commute_mapOf hd htargets), List.map_map]
  rfl

end Laid

end FullRun

/-! ## Gates on one target each -/

/-- The kind of the gates on one target each that a gate on several targets is made of. -/
def GateKind.onEach : GateKind → GateKind
  | .fan => .single
  | .controlled control extent .multiple => .controlled control extent .single
  | kind => kind

/-- The gate on one target that a gate on several targets has for it. -/
def GateStep.on (step : GateStep) (t : Int) : GateStep :=
  { step with kind := step.kind.onEach, targets := [t] }

/-- Gates that lay an operator of one qudit over several targets. -/
def GateKind.OnSeveral (kind : GateKind) : Prop :=
  kind = .fan ∨ ∃ control extent, kind = .controlled control extent .multiple

namespace Engine

open Execution

variable {c : Circuit ℝ} {step : GateStep}

/-- The gates on one target each are recorded ones if the gate on several targets is. -/
theorem recorded_on (hstep : step.Recorded c) (hkind : step.kind.OnSeveral) {t : Int}
    (ht : t ∈ step.targets) : (step.on t).Recorded c := by
  have htargets : TargetList c.qudits (step.on t).targets := by
    refine ⟨List.cons_ne_nil _ _, List.nodup_singleton t, fun q hq => ?_⟩
    rw [List.mem_singleton.mp hq]
    exact hstep.targets.inRange t ht
  have hcontrols := hstep.controls
  have htakes := hstep.takes
  have hoperator := hstep.operator
  rcases hkind with hkind | ⟨control, extent, hkind⟩
  · rw [hkind] at hcontrols hoperator
    refine ⟨htargets, hstep.controls_nodup, ?_, ?_, ?_⟩
    · unfold GateStep.on
      rw [hkind]
      exact hcontrols
    · unfold GateStep.on
      rw [hkind]
      rfl
    · unfold GateStep.on
      rw [hkind]
      exact hoperator
  · rw [hkind] at hcontrols hoperator htakes
    refine ⟨htargets, hstep.controls_nodup, ?_, ?_, ?_⟩
    · unfold GateStep.on
      rw [hkind]
      rcases control with _ | _
      · obtain ⟨hne, hrange, hdisjoint⟩ := hcontrols
        refine ⟨hne, hrange, fun q hq hmem => ?_⟩
        rw [List.mem_singleton.mp hmem] at hq
        exact hdisjoint t hq ht
      · exact hcontrols
    · unfold GateStep.on
      rw [hkind]
      exact ⟨htakes.1, fun _ => rfl⟩
    · unfold GateStep.on
      rw [hkind]
      exact hoperator

/-- The gates on one target each refer to qudits of the gate on several targets only. -/
theorem mem_qudits_of_on (hkind : step.kind.OnSeveral) {t : Int} (ht : t ∈ step.targets) :
    ∀ q ∈ (Step.gate (step.on t)).qudits, q ∈ (Step.gate step).qudits := by
  intro q hq
  have hsame : (step.on t).kind.isQuantumControlled = step.kind.isQuantumControlled := by
    unfold GateStep.on
    rcases hkind with hkind | ⟨control, extent, hkind⟩
    · rw [hkind]
      rfl
    · rw [hkind]
      rfl
  unfold Step.qudits at hq ⊢
  dsimp only at hq ⊢
  rw [hsame] at hq
  split
  · next hquantum =>
    rw [if_pos hquantum] at hq
    rcases List.mem_append.mp hq with hcontrol | htarget
    · exact List.mem_append_left _ hcontrol
    · rw [List.mem_singleton.mp htarget]
      exact List.mem_append_right _ ht
  · next hquantum =>
    rw [if_neg hquantum] at hq
    rw [List.mem_singleton.mp hq]
    exact ht

/-! ## Their acts -/

section Acts

variable {order : List Int}

/-- How the acts of a gate on several targets stand to those of its gates on one target each: either
all are refused with one fault, or what they do to the amplitudes is the same. -/
def SameOnEach (c : Circuit ℝ) (dits : List ℕ) (step : GateStep) (order : List Int) : Prop :=
  (∃ fault, acts c dits step step.controls step.targets = .error fault ∧
    ∀ t ∈ order, acts c dits (step.on t) step.controls [t] = .error fault) ∨
  ∃ list each, acts c dits step step.controls step.targets = .ok list ∧
    (∀ t ∈ order, acts c dits (step.on t) step.controls [t] = .ok (each t)) ∧
      ∀ psi, list.foldl (FullRun.act c.dim) psi =
        (order.flatMap each).foldl (FullRun.act c.dim) psi

variable (hd : 2 ≤ c.dim) (hstep : step.Recorded c) {dits : List ℕ}
  (horder : order.Perm step.targets)

include hd hstep horder

/-- One act does the same as one act for each target if its map is the product of theirs, and they
commute. -/
theorem sameOnEach_of_mapOf (hkind : step.kind.OnSeveral) {a : Act ℝ} {each : Int → Act ℝ}
    (hacts : acts c dits step step.controls step.targets = .ok [a])
    (heach : ∀ t, acts c dits (step.on t) step.controls [t] = .ok [each t])
    (hmap : FullRun.mapOf c.dim a = (step.targets.map fun t => FullRun.mapOf c.dim (each t)).prod)
    (hcommute : (step.targets.map fun t => FullRun.mapOf c.dim (each t)).Pairwise Commute) :
    SameOnEach c dits step order := by
  have hfit : a.Fits c.dim c.qudits := (fit_of_acts hstep hacts a List.mem_cons_self).1
  have hfits : ∀ t ∈ step.targets, (each t).Fits c.dim c.qudits := by
    intro t ht
    exact (fit_of_acts (recorded_on hstep hkind ht) (heach t) _ List.mem_cons_self).1
  refine .inr ⟨[a], fun t => [each t], hacts, fun t _ => heach t, fun psi => ?_⟩
  rw [← List.map_eq_flatMap, FullRun.foldl_act_of_perm hd horder hfits hcommute, ← hmap]
  exact FullRun.act_eq_mapOf hd hfit psi

omit hd hstep horder in
/-- A fan acts on one target after the other. -/
theorem acts_fan (hkind : step.kind = .fan) {op : Operator ℝ}
    (hop : c.operands.get? step.key = some op) :
    acts c dits step step.controls step.targets =
      .ok (step.targets.map fun t => .plain op [t]) := by
  unfold acts
  rw [hkind, operandOf_eq_ok hop]
  rfl

/-- A fan acts on its targets in any order. -/
theorem sameOnEach_fan (hkind : step.kind = .fan) {op : Operator ℝ}
    (hop : c.operands.get? step.key = some op) (hshape : op.shape = [c.dim, c.dim]) :
    SameOnEach c dits step order := by
  have hsingle (t : Int) : acts c dits (step.on t) step.controls [t] = .ok [.plain op [t]] := by
    have hon : (step.on t).kind = .single := by
      unfold GateStep.on
      rw [hkind]
      rfl
    unfold acts
    rw [hon]
    show (operandOf c step.key >>= _) = _
    rw [operandOf_eq_ok hop]
    rfl
  refine .inr ⟨_, fun t => [.plain op [t]], acts_fan hkind hop, fun t _ => hsingle t, fun psi => ?_⟩
  rw [← List.map_eq_flatMap,
    FullRun.foldl_plain_of_perm hd hshape hstep.targets (List.Perm.refl _),
    FullRun.foldl_plain_of_perm hd hshape hstep.targets horder]

section Controlled

variable {control : Control} {extent : Extent} {op : Operator ℝ}
  (hkind : step.kind = .controlled control extent .multiple)
  (hop : c.operands.get? step.key = some op) (hshape : op.shape = [c.dim, c.dim])

omit hd hstep horder in
include hkind hop in
/-- A gate on one target has the operator of the gate on several. -/
theorem jointOperand_on (t : Int) : jointOperand c (step.on t) 1 = .ok op := by
  refine jointOperand_self ?_ ?_ 1
  · intro control' extent' hmultiple
    unfold GateStep.on at hmultiple
    rw [hkind] at hmultiple
    cases hmultiple
  · exact hop

omit hd hstep horder in
include hkind in
theorem control?_on (t : Int) : (step.on t).kind.control? = step.kind.control? := by
  unfold GateStep.on
  rw [hkind]
  rfl

include hkind hop hshape

/-- Under control of qudits, the targets are acted on in any order. -/
theorem sameOnEach_quantum (hcontrol : step.kind.control? = some .quantum) :
    SameOnEach c dits step order := by
  have hne : step.targets.length ≠ 0 := List.length_eq_zero_iff.not.mpr hstep.targets.ne_nil
  have hcontrols := hstep.controls
  unfold Circuit.ControlsFit at hcontrols
  rw [hcontrol] at hcontrols
  obtain ⟨-, hrange, hdisjoint⟩ := hcontrols
  have hlength : step.targets.length = step.targets.length - 1 + 1 := by omega
  have hacts : acts c dits step step.controls step.targets =
      .ok [.controlled (op.kronPow (step.targets.length - 1)) step.controls step.targets] := by
    rw [acts_of_quantum hcontrol, jointOperand_multiple hkind hop hne]
    rfl
  have heach (t : Int) : acts c dits (step.on t) step.controls [t] =
      .ok [.controlled op step.controls [t]] := by
    rw [acts_of_quantum ((control?_on hkind t).trans hcontrol), List.length_singleton,
      jointOperand_on hkind hop]
    rfl
  exact sameOnEach_of_mapOf hd hstep horder (.inr ⟨control, extent, hkind⟩) hacts heach
    (FullRun.mapOf_controlled_kronPow hd hshape hstep.targets hrange hdisjoint hlength)
    (FullRun.pairwise_commute_mapOf_controlled hd hstep.targets hrange hdisjoint)

/-- Under control of dits, the targets are acted on in any order, whatever the values are. -/
theorem sameOnEach_classical (hcontrol : step.kind.control? = some .classical) :
    SameOnEach c dits step order := by
  have hne : step.targets.length ≠ 0 := List.length_eq_zero_iff.not.mpr hstep.targets.ne_nil
  have hlength : step.targets.length = step.targets.length - 1 + 1 := by omega
  have hacts : acts c dits step step.controls step.targets =
      ditValues dits step.controls >>= fun values =>
        classicalActs (op.kronPow (step.targets.length - 1)) values step.targets := by
    rw [acts_of_classical hcontrol, jointOperand_multiple hkind hop hne]
    rfl
  have heach (t : Int) : acts c dits (step.on t) step.controls [t] =
      ditValues dits step.controls >>= fun values => classicalActs op values [t] := by
    rw [acts_of_classical ((control?_on hkind t).trans hcontrol), List.length_singleton,
      jointOperand_on hkind hop]
    rfl
  have hkron := Tensor.shape_kronPow hshape (step.targets.length - 1)
  -- what is read off the dits decides for the gate and for its gates on one target each
  generalize ditValues dits step.controls = found at hacts heach
  rcases found with fault | values
  · exact .inl ⟨fault, hacts, fun t _ => heach t⟩
  replace hacts : acts c dits step step.controls step.targets =
    classicalActs (op.kronPow (step.targets.length - 1)) values step.targets := hacts
  replace heach : ∀ t, acts c dits (step.on t) step.controls [t] = classicalActs op values [t] :=
    heach
  unfold classicalActs at hacts heach
  rcases values with _ | ⟨v, rest⟩
  · exact sameOnEach_of_mapOf hd hstep horder (.inr ⟨control, extent, hkind⟩) hacts heach
      (FullRun.mapOf_kronPow hd hshape hstep.targets hlength)
      (FullRun.pairwise_commute_mapOf hd hstep.targets)
  dsimp only at hacts heach
  generalize commonValue? (v :: rest) = common at hacts heach
  rcases common with _ | value
  -- values that differ: no target is acted on
  · refine .inr ⟨[], fun _ => [], hacts, fun t _ => heach t, fun psi => ?_⟩
    rw [List.flatMap_eq_nil_iff.mpr fun _ _ => rfl]
  dsimp only at hacts heach
  rw [Tensor.power_nat hkron] at hacts
  simp only [Tensor.power_nat hshape] at heach
  by_cases hvalue : value < 2 ^ 63
  · simp only [if_pos hvalue] at hacts heach
    exact sameOnEach_of_mapOf hd hstep horder (.inr ⟨control, extent, hkind⟩) hacts heach
      (FullRun.mapOf_pow_kronPow hd hshape hstep.targets hlength value)
      (FullRun.pairwise_commute_mapOf hd hstep.targets)
  -- an exponent that no word holds is refused for each target as well
  · simp only [if_neg hvalue] at hacts heach
    exact .inl ⟨_, hacts, fun t _ => heach t⟩

end Controlled

omit hd horder in
/-- A gate that is laid over several targets has an operator of one qudit. -/
theorem operator_of_onSeveral (hkind : step.kind.OnSeveral) :
    ∃ op, c.operands.get? step.key = some op ∧ op.shape = [c.dim, c.dim] := by
  obtain ⟨op, hop, hshape⟩ := hstep.operator
  have hone : step.kind.acted step.targets.length = 1 := by
    rcases hkind with hkind | ⟨control, extent, hkind⟩
    · rw [hkind]
      rfl
    · rw [hkind]
      rfl
  rw [hone, Nat.pow_one] at hshape
  exact ⟨op, hop, hshape⟩

/-- A gate on several targets does the same to the amplitudes as its gates on one target each, in
any order, or all of them are refused. -/
theorem sameOnEach (hkind : step.kind.OnSeveral) : SameOnEach c dits step order := by
  obtain ⟨op, hop, hshape⟩ := operator_of_onSeveral hstep hkind
  rcases hkind with hkind | ⟨control, extent, hkind⟩
  · exact sameOnEach_fan hd hstep horder hkind hop hshape
  · rcases control with _ | _
    · exact sameOnEach_quantum hd hstep horder hkind hop hshape (by rw [hkind]; rfl)
    · exact sameOnEach_classical hd hstep horder hkind hop hshape (by rw [hkind]; rfl)

end Acts

/-! ## Their effects -/

section Effects

variable {gone order : List Int}

/-- Acts on live qudits that do the same to all amplitudes do the same to the state of an engine. -/
theorem Stands.total_eq {engine : Engine ℝ ℝ} (hd : 0 < c.dim) (h : Stands c gone engine)
    {list list' : List (Act ℝ)}
    (hfit : ∀ a ∈ list, a.Fits c.dim c.qudits ∧ ∀ q ∈ a.qudits, q ∉ gone)
    (hfit' : ∀ a ∈ list', a.Fits c.dim c.qudits ∧ ∀ q ∈ a.qudits, q ∉ gone)
    (hsame : ∀ psi, list.foldl (FullRun.act c.dim) psi = list'.foldl (FullRun.act c.dim) psi) :
    (list.map (Act.rename (seat gone))).foldl (Act.total c.dim) engine.state =
      (list'.map (Act.rename (seat gone))).foldl (Act.total c.dim) engine.state := by
  have hsize := h.size_state
  rw [← keys_zeros gone] at hsize hfit hfit' ⊢
  exact total_eq_of_acts hd (findings_zeros hd h.gone_nodup h.gone_inRange) hsize
    (fun a ha => (hfit a ha).1) (fun a ha => (hfit' a ha).1) (fun a ha => (hfit a ha).2)
    (fun a ha => (hfit' a ha).2) hsame

variable {run : Run ℝ ℝ} (hd : 2 ≤ c.dim) (h : Stands c gone run.engine)
  (hplain : run.engine.Plain) (hstep : step.Recorded c)
  (hlive : ∀ q ∈ (Step.gate step).qudits, q ∉ gone)

include hd h hplain hstep hlive

/-- A gate on several targets has the effect of its gates on one target each, in any order. -/
theorem effect_on_each (horder : order.Perm step.targets) (hkind : step.kind.OnSeveral)
    (ip ip' : ℕ) :
    (executeAll false c ip [.gate step]).effect run =
      (executeAll false c ip' ((order.map step.on).map Step.gate)).effect run := by
  have hmem : ∀ t ∈ order, t ∈ step.targets := fun t ht => horder.mem_iff.mp ht
  have hrecorded : ∀ gate ∈ order.map step.on, gate.Recorded c := by
    intro gate hgate
    obtain ⟨t, ht, rfl⟩ := List.mem_map.mp hgate
    exact recorded_on hstep hkind (hmem t ht)
  have hliveOn : ∀ gate ∈ order.map step.on, ∀ q ∈ (Step.gate gate).qudits, q ∉ gone := by
    intro gate hgate q hq
    obtain ⟨t, ht, rfl⟩ := List.mem_map.mp hgate
    exact hlive q (mem_qudits_of_on hkind (hmem t ht) q hq)
  have hcases : SameOnEach c run.engine.dits step order := sameOnEach hd hstep horder hkind
  rcases hcases with ⟨fault, hfault, heach⟩ | ⟨list, each, hlist, heach, hsame⟩
  -- a refusal changes nothing, and it comes with the first target
  · obtain ⟨t, rest, rfl⟩ : ∃ t rest, order = t :: rest := by
      refine List.exists_cons_of_ne_nil fun hnil => hstep.targets.ne_nil ?_
      exact List.nil_perm.mp (hnil ▸ horder)
    rw [effect_executeAll_singleton, effect_gate_error h hplain hstep hlive hfault, List.map_cons,
      List.map_cons, executeAll_cons,
      effect_bind_of_error (effect_gate_error h hplain (hrecorded _ List.mem_cons_self)
        (hliveOn _ List.mem_cons_self) (heach t List.mem_cons_self) _)]
  · have hlists : ∀ gate ∈ order.map step.on,
        acts c run.engine.dits gate gate.controls gate.targets =
          .ok (each (gate.targets.headD 0)) := by
      intro gate hgate
      obtain ⟨t, ht, rfl⟩ := List.mem_map.mp hgate
      exact heach t ht
    have hfitEach : ∀ a ∈ order.flatMap each,
        a.Fits c.dim c.qudits ∧ ∀ q ∈ a.qudits, q ∉ gone := by
      intro a ha
      obtain ⟨t, ht, hat⟩ := List.mem_flatMap.mp ha
      have hgate : step.on t ∈ order.map step.on := List.mem_map_of_mem ht
      exact live_of_acts (hrecorded _ hgate) (hliveOn _ hgate) (heach t ht) a hat
    have heffect := effect_gates hd h hplain ip' (fun gate => each (gate.targets.headD 0))
      hrecorded hliveOn hlists
    rw [List.flatMap_map] at heffect
    have hwhole := effect_gate hd h hplain hstep hlive hlist ip
    rw [h.total_eq (by omega) (live_of_acts hstep hlive hlist) hfitEach hsame] at hwhole
    rw [effect_executeAll_singleton, hwhole]
    exact heffect.symm

/-- A fan leaves the state that the Kronecker power of its operator makes of it when it is applied
to all targets jointly. -/
theorem effect_fan (hkind : step.kind = .fan) (ip : ℕ) :
    ∃ op joint positions state, c.operands.get? step.key = some op ∧
      op.tensorPower (.nat step.targets.length) = .ok joint ∧
      run.engine.positions step.targets ip = .ok positions ∧
      run.engine.state.apply false joint (positions.map .int) (.nat c.dim) = .ok state ∧
      (executeAll false c ip [.gate step]).effect run =
        (.ok (), { run.engine with state := state }, run.draws) := by
  obtain ⟨op, hop, hshape⟩ := operator_of_onSeveral hstep (.inl hkind)
  have hne : step.targets.length ≠ 0 := List.length_eq_zero_iff.not.mpr hstep.targets.ne_nil
  have hlength : step.targets.length = step.targets.length - 1 + 1 := by omega
  have htargets : ∀ q ∈ step.targets, q ∉ gone :=
    fun q hq => hlive q (Step.mem_qudits_of_mem_targets (.gate step) hq)
  have hjoint : (op.kronPow (step.targets.length - 1)).shape =
      [c.dim ^ step.targets.length, c.dim ^ step.targets.length] := by
    rw [Tensor.shape_kronPow hshape, ← hlength]
  -- applied to the positions, the Kronecker power is the act on all targets with other names
  refine ⟨op, _, _, _, hop, Tensor.tensorPower_eq_ok hne,
    h.positions_eq ip hstep.targets.inRange htargets,
    StateVector.apply_eq hd h.size_state (targetList_seat hstep.targets htargets)
      (by rwa [List.length_map]), ?_⟩
  have hfan : acts c run.engine.dits step step.controls step.targets = _ := acts_fan hkind hop
  have hfitJoint : ∀ a ∈ [Act.plain (op.kronPow (step.targets.length - 1)) step.targets],
      a.Fits c.dim c.qudits ∧ ∀ q ∈ a.qudits, q ∉ gone := by
    intro a ha
    rw [List.mem_singleton.mp ha]
    exact ⟨⟨hstep.targets, hjoint⟩, htargets⟩
  rw [effect_executeAll_singleton, effect_gate hd h hplain hstep hlive hfan,
    h.total_eq (by omega) (live_of_acts hstep hlive hfan) hfitJoint fun psi => ?_]
  · simp only [List.map_cons, List.map_nil, List.foldl_cons, List.foldl_nil, Act.rename, Act.total,
      Tensor.round_real]
  · rw [FullRun.foldl_plain_of_perm hd hshape hstep.targets (List.Perm.refl _),
      ← FullRun.mapOf_kronPow hd hshape hstep.targets hlength]
    rfl

end Effects

/-- Gates on several targets are gates on one target each, in any order. Let an engine over the real
numbers do nothing before its steps and check no norms, with any state of the live qudits and any
values of the dits. A recorded gate that lays an operator of one qudit over its targets, be it a fan
or a gate under control of qudits or of dits, has the effect of its gates on one target each,
executed in any order and at any place of a program: the same result, engine and draws, also where
all of them are refused. For a fan, this is the effect of its Kronecker power applied to the targets
jointly. -/
theorem targets_one_by_one {c : Circuit ℝ} {gone : List Int} {run : Run ℝ ℝ} (hd : 2 ≤ c.dim)
    (h : Stands c gone run.engine) (hplain : run.engine.Plain) {step : GateStep}
    (hstep : step.Recorded c) (hlive : ∀ q ∈ (Step.gate step).qudits, q ∉ gone)
    (hkind : step.kind.OnSeveral) {order : List Int} (horder : order.Perm step.targets)
    (ip ip' : ℕ) :
    (executeAll false c ip [.gate step]).effect run =
        (executeAll false c ip' ((order.map step.on).map Step.gate)).effect run ∧
      (step.kind = .fan → ∃ op joint positions state, c.operands.get? step.key = some op ∧
        op.tensorPower (.nat step.targets.length) = .ok joint ∧
        run.engine.positions step.targets ip = .ok positions ∧
        run.engine.state.apply false joint (positions.map .int) (.nat c.dim) = .ok state ∧
        (executeAll false c ip [.gate step]).effect run =
          (.ok (), { run.engine with state := state }, run.draws)) :=
  ⟨effect_on_each hd h hplain hstep hlive horder hkind ip ip',
    fun hfan => effect_fan hd h hplain hstep hlive hfan ip⟩

section

attribute [local instance] Capacity.common

/-- A fan on two qubits, of which the upper one is acted on first by the gates on one each. -/
theorem targets_one_by_one_pair :
    let c : Circuit ℝ := (Circuit.empty 0 2 0 2 "" (fun _ => "") fun _ => 0).attemptAll
      [.gateFan (.operator (.identity 2)) none ""]
    let step : GateStep := ⟨.fan, 0, [], [0, 1], ""⟩
    let run : Run ℝ ℝ := ⟨start c {} .nothing, .ofList [], []⟩
    2 ≤ c.dim ∧ Stands c [] run.engine ∧ run.engine.Plain ∧ step.Recorded c ∧
      (∀ q ∈ (Step.gate step).qudits, q ∉ ([] : List Int)) ∧ step.kind.OnSeveral ∧
      [(1 : Int), 0].Perm step.targets ∧
      ((executeAll false c 0 [.gate step]).effect run =
          (executeAll false c 0 (([1, 0].map step.on).map Step.gate)).effect run ∧
        (step.kind = .fan → ∃ op joint positions state, c.operands.get? step.key = some op ∧
          op.tensorPower (.nat step.targets.length) = .ok joint ∧
          run.engine.positions step.targets (0 : ℕ) = .ok positions ∧
          run.engine.state.apply false joint (positions.map .int) (.nat c.dim) = .ok state ∧
          (executeAll false c 0 [.gate step]).effect run =
            (.ok (), { run.engine with state := state }, run.draws))) := by
  intro c step run
  have hcreate : Circuit.create? 0 (.int 2) (.int 0) (.int 2) "" (fun _ => .ok fun _ => "")
      (fun _ => 0) = .ok (Circuit.empty 0 2 0 2 "" (fun _ => "") fun _ => 0 : Circuit ℝ) := rfl
  have hbuilt : c.Built := ⟨0, .int 2, .int 0, .int 2, "", _, _, _, _, hcreate, rfl⟩
  have hready : Ready c run.engine := .made
    (.intro {} none .nothing hbuilt rfl (fun channel hchannel => nomatch hchannel) rfl)
  obtain ⟨hsane, hstart⟩ := hready.sane
  have hstands : Stands c [] run.engine := (hstart.tracks hsane.fits).toStands
  have hplain : run.engine.Plain := ⟨rfl, rfl⟩
  have hlog : c.log = [.gate step] := rfl
  have hstep : step.Recorded c := hbuilt.wellFormed.recorded (.gate step) (by simp [hlog])
  have hlive : ∀ q ∈ (Step.gate step).qudits, q ∉ ([] : List Int) := fun _ _ => List.not_mem_nil
  have horder : [(1 : Int), 0].Perm step.targets := List.Perm.swap 0 1 []
  exact ⟨hsane.two_le_dim, hstands, hplain, hstep, hlive, .inl rfl, horder,
    targets_one_by_one hsane.two_le_dim hstands hplain hstep hlive (.inl rfl) horder 0 0⟩

end

end Engine

end QuditSim
