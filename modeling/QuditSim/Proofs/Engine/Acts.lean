import Mathlib.Data.List.Nodup
import QuditSim.Engine.Execution
import QuditSim.Proofs.Circuit.WellFormed
import QuditSim.Proofs.State.Kernels
import QuditSim.Proofs.Tensor.Shape

/-!
# The acts of a gate

A gate applies operators one after the other: an `Act` is one of them with the qudits that it acts
on. `Engine.acts` lists the acts of a gate, and `Engine.gateMaps_eq` says that the gate does these.
Acts name their qudits by any numbers, so the same list tells what a gate does to the qudits of the
circuit and, renamed by `Act.rename`, what it does to the positions of the state.

- `Engine.acts_fit`: a recorded gate has acts, and each of them fits the register;
  `Engine.fit_of_acts` is the part of it that holds for dits of any values.
- `Act.kernel_eq`: an act that fits the register is a total function, followed by a check of norms.
-/

namespace QuditSim

/-- The kinds of gates that have a control. -/
theorem GateKind.of_control? {kind : GateKind} {control : Control}
    (h : kind.control? = some control) :
    (∃ controls targets, kind = .controlled control controls targets) ∨
      kind = .controlledCustom control := by
  cases kind with
  | controlled _ controls targets =>
    cases h
    exact .inl ⟨controls, targets, rfl⟩
  | controlledCustom =>
    cases h
    exact .inr rfl
  | _ => cases h

/-- Lists of different qudits stay so under names that keep these apart. -/
theorem TargetList.rename {n m : Nat} {targets : List Int} {f : Int → Int}
    (h : TargetList n targets) (hrange : ∀ q ∈ targets, InRange m (f q))
    (hinj : ∀ p ∈ targets, ∀ q ∈ targets, f p = f q → p = q) : TargetList m (targets.map f) where
  ne_nil := by simpa using h.ne_nil
  nodup := List.Nodup.map_on hinj h.nodup
  inRange := by simpa using hrange

/-- One application of an operator. -/
inductive Act (S : Type) where
  /-- An operator on targets. -/
  | plain (op : Operator S) (targets : List Int)
  /-- An operator on targets under control. -/
  | controlled (op : Operator S) (controls targets : List Int)

namespace Act

variable {S R : Type}

/-- The same act on qudits with other names. -/
def rename (f : Int → Int) : Act S → Act S
  | plain op targets => plain op (targets.map f)
  | controlled op controls targets => controlled op (controls.map f) (targets.map f)

/-- An act fits a register of `m` qudits: it names different ones of them, and its operator has the
size for its targets. -/
def Fits (d m : Nat) : Act S → Prop
  | plain op targets =>
    TargetList m targets ∧ op.shape = [d ^ targets.length, d ^ targets.length]
  | controlled op controls targets =>
    TargetList m controls ∧ TargetList m targets ∧ (∀ q ∈ controls, q ∉ targets) ∧
      op.shape = [d ^ targets.length, d ^ targets.length]

/-- The qudits that an act refers to. -/
def qudits : Act S → List Int
  | plain _ targets => targets
  | controlled _ controls targets => controls ++ targets

theorem Fits.inRange {d m : Nat} {act : Act S} (h : act.Fits d m) :
    ∀ q ∈ act.qudits, InRange m q := by
  cases act with
  | plain op targets => exact h.1.inRange
  | controlled op controls targets =>
    intro q hq
    rcases List.mem_append.mp hq with hq | hq
    · exact h.1.inRange q hq
    · exact h.2.1.inRange q hq

/-- An act that fits a register fits another one under names that keep its qudits apart. -/
theorem Fits.rename {d n m : Nat} {act : Act S} {f : Int → Int} (h : act.Fits d n)
    (hrange : ∀ q ∈ act.qudits, InRange m (f q))
    (hinj : ∀ p ∈ act.qudits, ∀ q ∈ act.qudits, f p = f q → p = q) : (act.rename f).Fits d m := by
  cases act with
  | plain op targets =>
    refine ⟨h.1.rename hrange hinj, ?_⟩
    rw [List.length_map]
    exact h.2
  | controlled op controls targets =>
    obtain ⟨hcontrols, htargets, hdisjoint, hop⟩ := h
    have hcmem : ∀ q ∈ controls, q ∈ (controlled op controls targets).qudits :=
      fun q hq => List.mem_append_left _ hq
    have htmem : ∀ q ∈ targets, q ∈ (controlled op controls targets).qudits :=
      fun q hq => List.mem_append_right _ hq
    refine ⟨hcontrols.rename (fun q hq => hrange q (hcmem q hq)) fun p hp q hq => ?_,
      htargets.rename (fun q hq => hrange q (htmem q hq)) fun p hp q hq => ?_, ?_, ?_⟩
    · exact hinj p (hcmem p hp) q (hcmem q hq)
    · exact hinj p (htmem p hp) q (htmem q hq)
    -- a control and a target with one new name had one old name
    · intro q hq hq'
      obtain ⟨a, ha, rfl⟩ := List.mem_map.mp hq
      obtain ⟨b, hb, hab⟩ := List.mem_map.mp hq'
      exact hdisjoint a ha (hinj b (htmem b hb) a (hcmem a ha) hab ▸ hb)
    · rw [List.length_map]
      exact hop

variable [Scalar R] [Rounding S R]

/-- The operation on states that carries out an act. -/
def kernel [Scalar S] (checking : Bool) (c : Circuit S) : Act S → Engine.StateMap R
  | plain op targets => Engine.action checking c op targets
  | controlled op controls targets => fun state =>
    state.applyControlled checking (Rounding.round op) (controls.map .int) (targets.map .int)
      (.nat c.dim)

/-- What an act does to a state. -/
def total (d : Nat) (state : StateVector R) : Act S → StateVector R
  | plain op targets => state.applyOn d (Rounding.round op) (targets.map Int.toNat)
  | controlled op controls targets =>
    state.applyControlledOn d (Rounding.round op) (controls.map Int.toNat) (targets.map Int.toNat)

/-- An act that fits the register is carried out, and then norms are checked. -/
theorem kernel_eq [Scalar S] {checking : Bool} {c : Circuit S} {m : Nat} {act : Act S}
    {state : StateVector R} (hd : 2 ≤ c.dim) (hsize : state.size = c.dim ^ m)
    (h : act.Fits c.dim m) :
    act.kernel checking c state = (act.total c.dim state).checked checking := by
  cases act with
  | plain op targets => exact StateVector.apply_eq hd hsize h.1 h.2
  | controlled op controls targets =>
    obtain ⟨hcontrols, htargets, hdisjoint, hop⟩ := h
    exact StateVector.applyControlled_eq hd hsize hcontrols htargets hdisjoint hop

@[simp] theorem size_total (d : Nat) (state : StateVector R) (act : Act S) :
    (act.total d state).size = state.size := by
  cases act with
  | plain op targets => exact StateVector.size_build _ _
  | controlled op controls targets => exact StateVector.size_build _ _

theorem size_foldl_total (d : Nat) (state : StateVector R) (list : List (Act S)) :
    (list.foldl (total d) state).size = state.size := by
  induction list generalizing state with
  | nil => rfl
  | cons act list ih => exact (ih _).trans (size_total d state act)

end Act

namespace Engine

open Fallible

variable {S R : Type} [Scalar S]

/-! ## The acts of a gate -/

/-- The acts of a gate under control of dits with the given values. -/
def classicalActs (op : Operator S) (values : List Nat) (targets : List Int) :
    Except EngineFault (List (Act S)) :=
  match values with
  | [] => .ok [.plain op targets]
  | values =>
    match commonValue? values with
    | none => .ok []
    | some value =>
      match op.power (.nat value) with
      | .ok op => .ok [.plain op targets]
      | .error fault => .error (.state fault)

/-- The acts of a gate, in order. -/
def acts (c : Circuit S) (dits : List Nat) (step : GateStep) (controls targets : List Int) :
    Except EngineFault (List (Act S)) :=
  match step.kind with
  | .none | .fourier | .inverseFourier => .ok []
  | .single | .two | .three | .custom => do
    let op ← operandOf c step.key
    return [.plain op targets]
  | .fan => do
    let op ← operandOf c step.key
    return targets.map fun t => .plain op [t]
  | .controlled .quantum _ _ | .controlledCustom .quantum => do
    let op ← jointOperand c step targets.length
    return [.controlled op controls targets]
  | .controlled .classical _ _ | .controlledCustom .classical => do
    let op ← jointOperand c step targets.length
    let values ← ditValues dits controls
    classicalActs op values targets

/-- A gate carries out its acts. -/
theorem gateMaps_eq [Scalar R] [Rounding S R] (checking : Bool) (c : Circuit S) (dits : List Nat)
    (step : GateStep) (controls targets : List Int) :
    (gateMaps checking c dits step controls targets : Except EngineFault (List (StateMap R))) =
      (acts c dits step controls targets).map (List.map (Act.kernel checking c)) := by
  have hclassical (op : Operator S) (values : List Nat) :
      (classicalMaps checking c op values targets : Except EngineFault (List (StateMap R))) =
        (classicalActs op values targets).map (List.map (Act.kernel checking c)) := by
    unfold classicalMaps classicalActs
    cases values with
    | nil => rfl
    | cons v rest =>
      dsimp only
      cases commonValue? (v :: rest) with
      | none => rfl
      | some value =>
        dsimp only
        cases op.power (.nat value) <;> rfl
  -- the operator is looked up or formed first, and then the values of the dits are read
  have hdits : (do
      let op ← jointOperand c step targets.length
      let values ← ditValues dits controls
      classicalMaps checking c op values targets : Except EngineFault (List (StateMap R))) = (do
      let op ← jointOperand c step targets.length
      let values ← ditValues dits controls
      classicalActs op values targets).map (List.map (Act.kernel checking c)) := by
    cases jointOperand c step targets.length with
    | error fault => rfl
    | ok op =>
      cases ditValues dits controls with
      | error fault => rfl
      | ok values => exact hclassical op values
  unfold gateMaps acts
  cases step.kind with
  | none | fourier | inverseFourier => rfl
  | single | two | three | custom => cases operandOf c step.key <;> rfl
  | fan =>
    cases operandOf c step.key with
    | error fault => rfl
    | ok op =>
      show Except.ok _ = Except.ok _
      rw [List.map_map]
      rfl
  | controlled control controlExtent targetExtent =>
    cases control with
    | quantum => cases jointOperand c step targets.length <;> rfl
    | classical => exact hdits
  | controlledCustom control =>
    cases control with
    | quantum => cases jointOperand c step targets.length <;> rfl
    | classical => exact hdits

/-- A gate on qudits with other names does the same acts on these. -/
theorem acts_rename (c : Circuit S) (dits : List Nat) (step : GateStep) (f : Int → Int) :
    acts c dits step (if step.kind.isQuantumControlled then step.controls.map f else step.controls)
        (step.targets.map f) =
      (acts c dits step step.controls step.targets).map (List.map (Act.rename f)) := by
  have hclassical (op : Operator S) (values : List Nat) :
      classicalActs op values (step.targets.map f) =
        (classicalActs op values step.targets).map (List.map (Act.rename f)) := by
    unfold classicalActs
    cases values with
    | nil => rfl
    | cons v rest =>
      dsimp only
      cases commonValue? (v :: rest) with
      | none => rfl
      | some value =>
        dsimp only
        cases op.power (.nat value) <;> rfl
  -- controls that are dits keep their names, and only the targets get others
  have hdits : (do
      let op ← jointOperand c step step.targets.length
      let values ← ditValues dits step.controls
      classicalActs op values (step.targets.map f)) = (do
      let op ← jointOperand c step step.targets.length
      let values ← ditValues dits step.controls
      classicalActs op values step.targets).map (List.map (Act.rename f)) := by
    cases jointOperand c step step.targets.length with
    | error fault => rfl
    | ok op =>
      show (ditValues dits step.controls >>= _) = (ditValues dits step.controls >>= _).map _
      cases ditValues dits step.controls with
      | error fault => rfl
      | ok values => exact hclassical op values
  unfold acts
  rw [List.length_map]
  cases step.kind with
  | none | fourier | inverseFourier => rfl
  | single | two | three | custom => cases operandOf c step.key <;> rfl
  | fan =>
    cases operandOf c step.key with
    | error fault => rfl
    | ok op =>
      show Except.ok _ = Except.ok _
      rw [List.map_map, List.map_map]
      rfl
  | controlled control controlExtent targetExtent =>
    cases control with
    | quantum => cases jointOperand c step step.targets.length <;> rfl
    | classical => exact hdits
  | controlledCustom control =>
    cases control with
    | quantum => cases jointOperand c step step.targets.length <;> rfl
    | classical => exact hdits

/-- A gate under control of qudits has one act. -/
theorem acts_of_quantum {c : Circuit S} {step : GateStep}
    (hcontrol : step.kind.control? = some .quantum) (dits : List Nat) (controls targets : List Int) :
    acts c dits step controls targets = (do
      let op ← jointOperand c step targets.length
      return [Act.controlled op controls targets]) := by
  unfold acts
  rcases GateKind.of_control? hcontrol with ⟨_, _, hkind⟩ | hkind
  · rw [hkind]
  · rw [hkind]

/-- The acts of a gate under control of dits are those for the values of the dits. -/
theorem acts_of_classical {c : Circuit S} {step : GateStep}
    (hcontrol : step.kind.control? = some .classical) (dits : List Nat)
    (controls targets : List Int) :
    acts c dits step controls targets = (do
      let op ← jointOperand c step targets.length
      let values ← ditValues dits controls
      classicalActs op values targets) := by
  unfold acts
  rcases GateKind.of_control? hcontrol with ⟨_, _, hkind⟩ | hkind
  · rw [hkind]
  · rw [hkind]

/-! ## The acts of a recorded gate -/

section Recorded

variable {c : Circuit S} {dits : List Nat} {step : GateStep}

theorem placeOf?_of_inRange {n : Nat} {i : Int} (h : InRange n i) :
    placeOf? i n = some i.toNat := by
  unfold placeOf?
  rw [if_pos h.1, if_pos h.2]

/-- The values of dits that are there. -/
theorem ditValues_eq_ok {indices : List Int} (h : ∀ i ∈ indices, InRange dits.length i) :
    ditValues dits indices = .ok (indices.map fun i => dits.getD i.toNat 0) := by
  unfold ditValues
  induction indices with
  | nil => rfl
  | cons i rest ih =>
    rw [List.mapM_cons, ih fun j hj => h j (List.mem_cons_of_mem _ hj),
      placeOf?_of_inRange (h i List.mem_cons_self)]
    rfl

omit [Scalar S] in
theorem operandOf_eq_ok {key : Int} {op : Operator S} (h : c.operands.get? key = some op) :
    operandOf c key = .ok op := by
  unfold operandOf
  rw [h]

/-- A gate of one qudit on several targets is laid over them as the Kronecker power of its operator,
one factor for each target. -/
theorem jointOperand_multiple {op : Operator S} {control : Control} {extent : Extent}
    (hkind : step.kind = .controlled control extent .multiple)
    (hop : c.operands.get? step.key = some op) {count : Nat} (hcount : count ≠ 0) :
    jointOperand c step count = .ok (op.kronPow (count - 1)) := by
  unfold jointOperand
  rw [operandOf_eq_ok hop, hkind]
  show (op.tensorPower (.nat count)).mapError EngineFault.state = _
  rw [Tensor.tensorPower_eq_ok hcount]
  rfl

/-- Any other gate is laid over its targets as its operator. -/
theorem jointOperand_self {op : Operator S}
    (hkind : ∀ control extent, step.kind ≠ .controlled control extent .multiple)
    (hop : c.operands.get? step.key = some op) (count : Nat) :
    jointOperand c step count = .ok op := by
  unfold jointOperand
  rw [operandOf_eq_ok hop]
  cases hcases : step.kind with
  | controlled control controlExtent targetExtent =>
    cases targetExtent with
    | single => rfl
    | multiple => exact absurd hcases (hkind control controlExtent)
  | _ => rfl

/-- The operator that a recorded gate applies to its targets jointly has the size for them. -/
theorem jointOperand_eq_ok (h : step.Recorded c) (hcontrol : step.kind.control?.isSome) :
    ∃ op, jointOperand c step step.targets.length = .ok op ∧
      op.shape = [c.dim ^ step.targets.length, c.dim ^ step.targets.length] := by
  obtain ⟨op, hop, hshape⟩ := h.operator
  have htakes := h.takes
  have hpos : step.targets.length ≠ 0 := List.length_eq_zero_iff.not.mpr h.targets.ne_nil
  cases hkind : step.kind with
  | controlled control controlExtent targetExtent =>
    rw [hkind] at hshape htakes
    cases targetExtent with
    | single =>
      refine ⟨op, jointOperand_self (by simp [hkind]) hop _, ?_⟩
      rw [htakes.2 rfl]
      exact hshape
    | multiple =>
      refine ⟨_, jointOperand_multiple hkind hop hpos, ?_⟩
      have hpow : op.shape = [c.dim, c.dim] := by simpa [GateKind.acted] using hshape
      rw [Tensor.shape_kronPow hpow, Nat.sub_add_cancel (Nat.pos_of_ne_zero hpos)]
  | controlledCustom control =>
    rw [hkind] at hshape
    exact ⟨op, jointOperand_self (by simp [hkind]) hop _, hshape⟩
  -- these gates have no control, so nothing is applied jointly
  | none | single | two | three | custom | fan | fourier | inverseFourier =>
    rw [hkind] at hcontrol
    cases hcontrol

/-- Under control of dits, a gate acts if all of them have the value of the first one, with the power
of the operator that this value is. A value that no word holds is refused. -/
theorem classicalActs_cons {op : Operator S} {n : Nat} (hop : op.shape = [n, n]) (v : Nat)
    (rest : List Nat) (targets : List Int) :
    classicalActs op (v :: rest) targets =
      if ∀ w ∈ rest, w = v then
        if v < 2 ^ 63 then .ok [.plain (op.pow v) targets] else .error (.state .badExponent)
      else .ok [] := by
  unfold classicalActs commonValue?
  simp only [List.all_eq_true, beq_iff_eq]
  by_cases hagree : ∀ w ∈ rest, w = v
  · rw [if_pos hagree, if_pos hagree]
    dsimp only
    rw [Tensor.power_nat hop]
    by_cases hsmall : v < 2 ^ 63
    · rw [if_pos hsmall, if_pos hsmall]
    · rw [if_neg hsmall, if_neg hsmall]
  · rw [if_neg hagree, if_neg hagree]

/-- A gate under control of dits does nothing, or it acts with its operator or a power of it. -/
theorem classicalActs_cases {op : Operator S} {values : List Nat} {targets : List Int} {n : Nat}
    {list : List (Act S)} (hop : op.shape = [n, n])
    (hlist : classicalActs op values targets = .ok list) :
    list = [] ∨ list = [.plain op targets] ∨ ∃ value, list = [.plain (op.pow value) targets] := by
  rcases values with _ | ⟨v, rest⟩
  · cases hlist
    exact .inr (.inl rfl)
  · rw [classicalActs_cons hop] at hlist
    split at hlist
    · split at hlist
      · cases hlist
        exact .inr (.inr ⟨v, rfl⟩)
      · cases hlist
    · cases hlist
      exact .inl rfl

/-- A gate under control of dits acts on its targets or does nothing. -/
theorem fit_of_classicalActs {op : Operator S} {values : List Nat} {targets : List Int} {d m : Nat}
    {list : List (Act S)} (htargets : TargetList m targets)
    (hop : op.shape = [d ^ targets.length, d ^ targets.length])
    (hlist : classicalActs op values targets = .ok list) :
    ∀ act ∈ list, act.Fits d m ∧ act.qudits = targets := by
  rcases classicalActs_cases hop hlist with rfl | rfl | ⟨value, rfl⟩
  · exact fun act hact => nomatch hact
  · exact List.forall_mem_singleton.mpr ⟨⟨htargets, hop⟩, rfl⟩
  · exact List.forall_mem_singleton.mpr ⟨⟨htargets, Tensor.shape_pow hop value⟩, rfl⟩

/-- The acts of a gate under control of dits are found if the values are small enough. -/
theorem classicalActs_eq_ok {op : Operator S} {values : List Nat} (targets : List Int) {n : Nat}
    (hop : op.shape = [n, n]) (hvalues : ∀ v ∈ values, v < 2 ^ 63) :
    ∃ list, classicalActs op values targets = .ok list := by
  rcases values with _ | ⟨v, rest⟩
  · exact ⟨_, rfl⟩
  · rw [classicalActs_cons hop, if_pos (hvalues v List.mem_cons_self)]
    split <;> exact ⟨_, rfl⟩

/-- What the acts of a recorded gate can be. -/
inductive ActsOf (c : Circuit S) (step : GateStep) : List (Act S) → Prop where
  /-- The operator is laid over all targets. -/
  | plain (op : Operator S) (hop : c.operands.get? step.key = some op)
      (hshape : op.shape = [c.dim ^ step.targets.length, c.dim ^ step.targets.length]) :
    ActsOf c step [.plain op step.targets]
  /-- The operator is laid over one target after the other. -/
  | fan (op : Operator S) (hop : c.operands.get? step.key = some op)
      (hshape : op.shape = [c.dim ^ 1, c.dim ^ 1]) :
    ActsOf c step (step.targets.map fun t => .plain op [t])
  /-- Qudits control an operator on all targets. -/
  | quantum (joint : Operator S) (hcontrol : step.kind.control? = some .quantum)
      (hjoint : jointOperand c step step.targets.length = .ok joint)
      (hshape : joint.shape = [c.dim ^ step.targets.length, c.dim ^ step.targets.length]) :
    ActsOf c step [.controlled joint step.controls step.targets]
  /-- The values of dits control an operator on all targets. -/
  | classical (joint : Operator S) (values : List Nat) (list : List (Act S))
      (hcontrol : step.kind.control? = some .classical)
      (hjoint : jointOperand c step step.targets.length = .ok joint)
      (hshape : joint.shape = [c.dim ^ step.targets.length, c.dim ^ step.targets.length])
      (hlist : classicalActs joint values step.targets = .ok list) : ActsOf c step list

theorem actsOf_of_acts (h : step.Recorded c) {list : List (Act S)}
    (hlist : acts c dits step step.controls step.targets = .ok list) : ActsOf c step list := by
  rcases hcontrol : step.kind.control? with _ | _ | _
  -- Without control, the operator is laid over all targets or over one after the other.
  · obtain ⟨op, hop, hshape⟩ := h.operator
    unfold acts at hlist
    rw [operandOf_eq_ok hop] at hlist
    cases hkind : step.kind with
    | none | fourier | inverseFourier =>
      have htakes := h.takes
      rw [hkind] at htakes
      exact htakes.elim
    | single | two | three | custom =>
      rw [hkind] at hshape hlist
      cases hlist
      exact .plain op hop hshape
    | fan =>
      rw [hkind] at hshape hlist
      cases hlist
      exact .fan op hop hshape
    | controlled | controlledCustom =>
      rw [hkind] at hcontrol
      cases hcontrol
  · obtain ⟨joint, hjoint, hshape⟩ := jointOperand_eq_ok h (by rw [hcontrol]; rfl)
    rw [acts_of_quantum hcontrol, hjoint] at hlist
    cases hlist
    exact .quantum joint hcontrol hjoint hshape
  · obtain ⟨joint, hjoint, hshape⟩ := jointOperand_eq_ok h (by rw [hcontrol]; rfl)
    rw [acts_of_classical hcontrol] at hlist
    obtain ⟨other, hother, hlist⟩ := bind_eq_ok.mp hlist
    obtain rfl : joint = other := Except.ok.inj (hjoint.symm.trans hother)
    obtain ⟨values, -, hvalues⟩ := bind_eq_ok.mp hlist
    exact .classical joint values list hcontrol hjoint hshape hvalues

/-- The acts of a recorded gate fit the register of the circuit and refer to qudits of the gate
only. -/
theorem fit_of_acts (h : step.Recorded c) {list : List (Act S)}
    (hlist : acts c dits step step.controls step.targets = .ok list) :
    ∀ act ∈ list, act.Fits c.dim c.qudits ∧ ∀ q ∈ act.qudits, q ∈ (Step.gate step).qudits := by
  have htargets := h.targets
  have hqudits : ∀ q ∈ step.targets, q ∈ (Step.gate step).qudits :=
    fun q hq => Step.mem_qudits_of_mem_targets (.gate step) hq
  intro act hact
  cases actsOf_of_acts h hlist with
  | plain op hop hshape =>
    rw [List.mem_singleton.mp hact]
    exact ⟨⟨htargets, hshape⟩, hqudits⟩
  | fan op hop hshape =>
    obtain ⟨t, ht, rfl⟩ := List.mem_map.mp hact
    refine ⟨⟨⟨List.cons_ne_nil _ _, List.nodup_singleton _, ?_⟩, hshape⟩, ?_⟩
    · simpa using htargets.inRange t ht
    · simpa [Act.qudits] using hqudits t ht
  | quantum joint hcontrol hjoint hshape =>
    have hcontrols := h.controls
    unfold Circuit.ControlsFit at hcontrols
    rw [hcontrol] at hcontrols
    obtain ⟨hne, hrange, hdisjoint⟩ := hcontrols
    rw [List.mem_singleton.mp hact]
    refine ⟨⟨⟨hne, h.controls_nodup, hrange⟩, htargets, hdisjoint, hshape⟩, fun q hq => ?_⟩
    rw [Step.qudits_of_quantum hcontrol]
    exact hq
  | classical joint values _ hcontrol hjoint hshape hvalues =>
    obtain ⟨hfits, heq⟩ := fit_of_classicalActs htargets hshape hvalues act hact
    exact ⟨hfits, heq ▸ hqudits⟩

/-- The acts of a recorded gate on live qudits fit the register of the circuit and refer to live
qudits only. -/
theorem live_of_acts (h : step.Recorded c) {gone : List Int}
    (hlive : ∀ q ∈ (Step.gate step).qudits, q ∉ gone) {list : List (Act S)}
    (hlist : acts c dits step step.controls step.targets = .ok list) :
    ∀ act ∈ list, act.Fits c.dim c.qudits ∧ ∀ q ∈ act.qudits, q ∉ gone := by
  intro act hact
  obtain ⟨hfits, hqudits⟩ := fit_of_acts h hlist act hact
  exact ⟨hfits, fun q hq => hlive q (hqudits q hq)⟩

/-- A recorded gate has acts if the dits are those of the circuit and small enough. -/
theorem acts_eq_ok (h : step.Recorded c) (hlength : dits.length = c.dits)
    (hvalues : ∀ v ∈ dits, v < 2 ^ 63) :
    ∃ list, acts c dits step step.controls step.targets = .ok list := by
  have hcontrols := h.controls
  obtain ⟨op, hop, -⟩ := h.operator
  rcases hcontrol : step.kind.control? with _ | _ | _
  · unfold acts
    rw [operandOf_eq_ok hop]
    cases hkind : step.kind with
    | controlled | controlledCustom =>
      rw [hkind] at hcontrol
      cases hcontrol
    | _ => exact ⟨_, rfl⟩
  · obtain ⟨joint, hjoint, -⟩ := jointOperand_eq_ok h (by rw [hcontrol]; rfl)
    rw [acts_of_quantum hcontrol, hjoint]
    exact ⟨_, rfl⟩
  · obtain ⟨joint, hjoint, hsize⟩ := jointOperand_eq_ok h (by rw [hcontrol]; rfl)
    unfold Circuit.ControlsFit at hcontrols
    rw [hcontrol] at hcontrols
    -- the dits read are values of the run or the default, and both are small enough
    have hbound : ∀ v ∈ step.controls.map fun i => dits.getD i.toNat 0, v < 2 ^ 63 := by
      intro v hv
      obtain ⟨i, -, rfl⟩ := List.mem_map.mp hv
      rw [List.getD_eq_getElem?_getD]
      cases hget : dits[i.toNat]? with
      | none => simp
      | some v => exact hvalues v (List.mem_of_getElem? hget)
    rw [acts_of_classical hcontrol, hjoint, ditValues_eq_ok (by rw [hlength]; exact hcontrols)]
    exact classicalActs_eq_ok step.targets hsize hbound

/-- A recorded gate has acts. Each of them fits the register of the circuit and refers to qudits
of the gate only. -/
theorem acts_fit (h : step.Recorded c) (hlength : dits.length = c.dits)
    (hvalues : ∀ v ∈ dits, v < 2 ^ 63) :
    ∃ list, acts c dits step step.controls step.targets = .ok list ∧
      ∀ act ∈ list, act.Fits c.dim c.qudits ∧ ∀ q ∈ act.qudits, q ∈ (Step.gate step).qudits := by
  obtain ⟨list, hlist⟩ := acts_eq_ok h hlength hvalues
  exact ⟨list, hlist, fit_of_acts h hlist⟩

end Recorded

end Engine

end QuditSim
