import QuditSim.Proofs.Engine.Embedding
import QuditSim.Proofs.Engine.Stages
import QuditSim.Proofs.Exact

/-!
# The register that keeps its measured qudits

The reference for what a program does: the amplitudes of all qudits are kept, a gate acts on the
digits of its qudits, and a measurement projects onto the digits that it found and normalizes what
is left. Nothing is ever moved to another place.

- `FullRun.gate` and `FullRun.measure` are the steps of the reference, and `FullRun.run` its runs.
- `FullRun.common` is the rule of control: controls of one value select the power of the operator
  that this value is, and controls that differ select none. `FullRun.common_eq_commonValue?` and
  `FullRun.exponent_eq_controlValue?` say that the program reads its dits and its qudits by this rule.
- `Restricts` relates the full register to the state of the live qudits: that state is the full one
  at the indices with the digits found, and the full one is zero at all others.
- `Restricts.acts` and `Restricts.collapse` say that acts and measurements keep them so related.
-/

open Finset

namespace QuditSim

/-- A run that keeps all qudits. -/
structure FullRun where
  /-- The amplitudes of the basis states of all qudits. -/
  psi : ℕ → ℂ
  /-- The values of the dits. -/
  dits : List ℕ
  /-- The probabilities that the dits were written with. -/
  probs : List ℝ
  /-- The measured qudits with the digits found, in the order of their measurements. -/
  found : List (Int × ℕ)
  /-- The numbers that chance is made of. -/
  draws : Draws ℝ

namespace FullRun

noncomputable section

/-- A matrix acts on the digits of some qudits. -/
def actOn (d : ℕ) (entry : ℕ → ℕ → ℂ) (qudits : List ℕ) (psi : ℕ → ℂ) (x : ℕ) : ℂ :=
  ∑ b ∈ range (d ^ qudits.length), entry (readDigits d qudits x) b * psi (placeDigits d qudits b x)

/-- The value that all numbers of a list have, and zero if they differ. -/
def common (values : List ℕ) : ℕ :=
  if ∀ v ∈ values, ∀ w ∈ values, v = w then values.headD 0 else 0

/-- The value that some qudits have in common in a basis state, and zero if they differ. -/
def exponent (d : ℕ) (controls : List ℕ) (x : ℕ) : ℕ :=
  common (controls.map fun q => digit d q x)

/-- A power of an operator acts on the digits of some qudits. The power zero does nothing. -/
def raised (d : ℕ) (op : Operator ℝ) (qudits : List ℕ) (v : ℕ) (psi : ℕ → ℂ) : ℕ → ℂ :=
  if v = 0 then psi else actOn d (fun i b => ((op.pow v).entry i b).toComplex) qudits psi

/-- An act on the full register. Under control, the power of the operator acts that its controls
have as their common value. -/
def act (d : ℕ) (psi : ℕ → ℂ) : Act ℝ → ℕ → ℂ
  | .plain op targets =>
    actOn d (fun i b => (op.entry i b).toComplex) (targets.map Int.toNat) psi
  | .controlled op controls targets => fun x =>
    raised d op (targets.map Int.toNat) (exponent d (controls.map Int.toNat) x) psi x

theorem act_plain (d : ℕ) (psi : ℕ → ℂ) (op : Operator ℝ) (targets : List Int) :
    act d psi (.plain op targets) =
      actOn d (fun i b => (op.entry i b).toComplex) (targets.map Int.toNat) psi := rfl

/-- The weight of the indices whose digits at some qudits spell a number. -/
def weight (d n : ℕ) (qudits : List ℕ) (psi : ℕ → ℂ) (j : ℕ) : ℝ :=
  ∑ x ∈ range (d ^ n), if readDigits d qudits x = j then Complex.normSq (psi x) else 0

/-- The projection onto the indices whose digits at some qudits spell a number, divided by the root
of their weight. -/
def project (d n : ℕ) (qudits : List ℕ) (psi : ℕ → ℂ) (j x : ℕ) : ℂ :=
  if readDigits d qudits x = j then psi x / (√(weight d n qudits psi j) : ℝ) else 0

/-- The full register before any step. -/
def start (c : Circuit ℝ) (draws : Draws ℝ) : FullRun where
  psi x := if x = 0 then 1 else 0
  dits := List.replicate c.dits 0
  probs := List.replicate c.dits 0
  found := []
  draws := draws

/-- The amplitudes after a gate. It acts on the qudits that it names, and its operator is raised to
the value that its controls have in common, be they qudits or dits. -/
def acted (c : Circuit ℝ) (dits : List ℕ) (step : GateStep) (psi : ℕ → ℂ) :
    Except EngineFault (ℕ → ℂ) :=
  match step.kind with
  | .none | .fourier | .inverseFourier => .ok psi
  | .single | .two | .three | .custom => do
    let op ← Engine.operandOf c step.key
    return act c.dim psi (.plain op step.targets)
  | .fan => do
    let op ← Engine.operandOf c step.key
    return step.targets.foldl (fun psi t => act c.dim psi (.plain op [t])) psi
  | .controlled .quantum _ _ | .controlledCustom .quantum => do
    let op ← Engine.jointOperand c step step.targets.length
    return act c.dim psi (.controlled op step.controls step.targets)
  | .controlled .classical _ _ | .controlledCustom .classical => do
    let op ← Engine.jointOperand c step step.targets.length
    let values := step.controls.map fun i => dits.getD i.toNat 0
    -- without dits, nothing controls the gate
    return if values = [] then act c.dim psi (.plain op step.targets)
      else raised c.dim op (step.targets.map Int.toNat) (common values) psi

/-- A gate acts on the amplitudes and measures nothing. -/
def gate (c : Circuit ℝ) (full : FullRun) (step : GateStep) : Except EngineFault FullRun := do
  let psi ← acted c full.dits step full.psi
  return { full with psi := psi }

/-- The amplitudes whose digits a measurement reads. In a basis of its own, they are those after the
adjoint of the basis acted on its targets. -/
def turned (c : Circuit ℝ) (psi : ℕ → ℂ) (step : MeasureStep) : Except EngineFault (ℕ → ℂ) :=
  match step.kind with
  | .none | .standard => .ok psi
  | .basis | .jointBasis =>
    match step.keys.head? with
    | none => .error .noBasis
    | some key => do
      let basis ← Engine.operandOf c key
      return actOn c.dim (fun i b => (starRingEnd ℂ) (basis.entry b i).toComplex)
        (step.targets.map Int.toNat) psi

/-- The weights of the numbers that the targets of a measurement can spell. -/
def weights (c : Circuit ℝ) (step : MeasureStep) (psi : ℕ → ℂ) : List ℝ :=
  (List.range (c.dim ^ step.targets.length)).map
    (weight c.dim c.qudits (step.targets.map Int.toNat) psi)

/-- A run after a measurement found a number: the amplitudes in which its targets spell the number
are kept, and the number is written into the dit together with its weight. -/
def collapsed (c : Circuit ℝ) (full : FullRun) (step : MeasureStep) (psi : ℕ → ℂ) (j : ℕ) :
    FullRun where
  psi := project c.dim c.qudits (step.targets.map Int.toNat) psi j
  dits := full.dits.set step.dit.toNat j
  probs := full.probs.set step.dit.toNat
    (weight c.dim c.qudits (step.targets.map Int.toNat) psi j)
  found := full.found ++ spelled c.dim step.targets j
  draws := full.draws.advance

/-- A measurement draws the number that its targets spell. -/
def measure (c : Circuit ℝ) (full : FullRun) (step : MeasureStep) : Except EngineFault FullRun := do
  let psi ← turned c full.psi step
  let j ← (sampleIndex (weights c step psi) full.draws.current).mapError .state
  return full.collapsed c step psi j

/-- A step of the reference. -/
def step (c : Circuit ℝ) (full : FullRun) : Step → Except EngineFault FullRun
  | .gate step => full.gate c step
  | .measure step => full.measure c step

/-- The steps of a list one after the other. -/
def run (c : Circuit ℝ) (steps : List Step) (full : FullRun) : Except EngineFault FullRun :=
  steps.foldlM (step c) full

end

/-! ## The rule of control -/

theorem common_cons (v : ℕ) (rest : List ℕ) :
    common (v :: rest) = if ∀ w ∈ rest, w = v then v else 0 := by
  unfold common
  rw [List.headD_cons]
  refine if_congr ⟨fun h w hw => ?_, fun h => ?_⟩ rfl rfl
  · exact h w (List.mem_cons_of_mem _ hw) v List.mem_cons_self
  -- what all others are equal to is what any two of them are
  · have hall : ∀ u ∈ v :: rest, u = v := List.forall_mem_cons.mpr ⟨rfl, h⟩
    exact fun u hu w hw => (hall u hu).trans (hall w hw).symm

/-- Dits are read by the rule of control. -/
theorem common_eq_commonValue? (values : List ℕ) :
    common values = (Engine.commonValue? values).getD 0 := by
  cases values with
  | nil => rfl
  | cons v rest =>
    rw [common_cons, Engine.commonValue?]
    simp only [List.all_eq_true, beq_iff_eq]
    split <;> rfl

/-- The digits of qudits are read by the rule of control. -/
theorem exponent_eq_controlValue? (d : ℕ) (controls : List ℕ) (x : ℕ) :
    exponent d controls x = (StateVector.controlValue? d controls x).getD 0 := by
  unfold exponent
  cases controls with
  | nil => rfl
  | cons q rest =>
    rw [List.map_cons, common_cons, StateVector.controlValue?]
    simp only [List.all_eq_true, beq_iff_eq, List.forall_mem_map]
    split <;> rfl

@[simp] theorem raised_zero (d : ℕ) (op : Operator ℝ) (qudits : List ℕ) (psi : ℕ → ℂ) :
    raised d op qudits 0 psi = psi := if_pos rfl

/-! ## Runs -/

/-- A run that goes one step further. -/
theorem run_append_singleton (c : Circuit ℝ) (steps : List Step) (last : Step) (full : FullRun) :
    run c (steps ++ [last]) full = run c steps full >>= fun full' => full'.step c last := by
  unfold run
  rw [List.foldlM_append]
  congr 1
  funext full'
  rw [List.foldlM_cons]
  exact bind_pure _

/-- A run that failed stays so. -/
theorem run_append_of_error {c : Circuit ℝ} {steps : List Step} {full : FullRun}
    {fault : EngineFault} (h : run c steps full = .error fault) (later : List Step) :
    run c (steps ++ later) full = .error fault := by
  unfold run at h ⊢
  rw [List.foldlM_append, h]
  rfl

end FullRun

open Layout

variable {d n : ℕ} {found : List (Int × ℕ)}

/-! ## Sums over the register -/

/-- What is zero off the digits found is summed over the live register. -/
theorem sum_fullIndex (hd : 0 < d) (h : Findings d n found) (f : ℕ → ℝ)
    (hf : ∀ x < d ^ n, ¬ Consistent d found x → f x = 0) :
    ∑ x ∈ range (d ^ n), f x =
      ∑ y ∈ range (d ^ place (found.map Prod.fst) n), f (fullIndex d n found y) := by
  symm
  refine sum_of_injOn (fullIndex d n found) ?_ ?_ ?_ fun _ _ => rfl
  · intro y hy y' hy' heq
    rw [coe_range, Set.mem_Iio] at hy hy'
    exact fullIndex_injective hd h hy hy' heq
  · intro y _
    rw [coe_range, Set.mem_Iio]
    exact fullIndex_lt hd h y
  -- an index that is no full index lacks the digits found
  · intro x hx hnot
    rw [mem_range] at hx
    refine hf x hx fun hfound => hnot ?_
    obtain ⟨y, hy, rfl⟩ := exists_fullIndex hd h hx hfound
    exact ⟨y, by rwa [coe_range, Set.mem_Iio], rfl⟩

/-! ## The state of the live qudits -/

/-- The full register is zero off the digits found, and at the indices that have them it is the
state of the live qudits. -/
structure Restricts (d n : ℕ) (found : List (Int × ℕ)) (psi : ℕ → ℂ) (state : StateVector ℝ) :
    Prop where
  /-- The state is one of the live qudits. -/
  size_eq : state.size = d ^ place (found.map Prod.fst) n
  /-- Its amplitudes are those of the full register. -/
  amplitude_eq : ∀ y < d ^ place (found.map Prod.fst) n,
    (state.amplitude y).toComplex = psi (fullIndex d n found y)
  /-- All other amplitudes of the full register are zero. -/
  zero_off : ∀ x < d ^ n, ¬ Consistent d found x → psi x = 0

/-- Before any step the two registers are the same. -/
theorem Restricts.start (hd : 0 < d) (n : ℕ) :
    Restricts d n [] (fun x => if x = 0 then 1 else 0) (StateVector.zero n d) where
  size_eq := by
    rw [List.map_nil, place_nil]
    exact StateVector.size_build _ _
  amplitude_eq y hy := by
    rw [List.map_nil, place_nil] at hy
    rw [fullIndex_nil hd hy]
    unfold StateVector.zero StateVector.basisState
    rw [StateVector.amplitude_build _ hy]
    by_cases hzero : y = 0
    · rw [if_pos hzero, if_pos hzero, Amplitude.toComplex_one]
    · rw [if_neg hzero, if_neg hzero, Amplitude.toComplex_zero]
  zero_off x _ hnot := absurd (fun _ hf => (nomatch hf)) hnot

theorem map_toNat_seat (gone ts : List Int) :
    (ts.map (Engine.seat gone)).map Int.toNat = ts.map fun t => place gone t.toNat := by
  rw [List.map_map]
  exact List.map_congr_left fun t _ => Engine.toNat_seat gone t

theorem controlValue?_lt (hd : 0 < d) {controls : List ℕ} {x v : ℕ}
    (hvalue : StateVector.controlValue? d controls x = some v) : v < d := by
  unfold StateVector.controlValue? at hvalue
  split at hvalue
  · cases hvalue
  · split at hvalue
    · cases hvalue
      exact digit_lt hd _ _
    · cases hvalue

section Acts

variable {psi : ℕ → ℂ} {ts : List Int} (hd : 0 < d) (h : Findings d n found)

include hd h

/-- Placing the digits of live qudits keeps the digits found. -/
theorem consistent_placeDigits (hrange : ∀ t ∈ ts, InRange n t)
    (hlive : ∀ t ∈ ts, t ∉ found.map Prod.fst) {b x : ℕ} :
    Consistent d found (placeDigits d (ts.map Int.toNat) b x) ↔ Consistent d found x := by
  -- no measured qudit is among the live ones, so its digit stays
  refine forall₂_congr fun f hf => ?_
  rw [digit_placeDigits_of_not_mem hd]
  rw [List.mem_map]
  rintro ⟨t, ht, heq⟩
  have hsame : t = f.1 := by
    rw [← (hrange t ht).toNat_eq, heq, (h.inRange f hf).toNat_eq]
  exact hlive t ht (hsame ▸ List.mem_map_of_mem hf)

/-- A matrix that acts on live qudits leaves the full register zero off the digits found. -/
theorem actOn_eq_zero (hts : ∀ t ∈ ts, InRange n t) (hlive : ∀ t ∈ ts, t ∉ found.map Prod.fst)
    (hzero : ∀ x < d ^ n, ¬ Consistent d found x → psi x = 0) (entry : ℕ → ℕ → ℂ) {x : ℕ}
    (hx : x < d ^ n) (hnot : ¬ Consistent d found x) :
    FullRun.actOn d entry (ts.map Int.toNat) psi x = 0 := by
  unfold FullRun.actOn
  refine sum_eq_zero fun b _ => ?_
  have hplaced : placeDigits d (ts.map Int.toNat) b x < d ^ n := by
    refine placeDigits_lt hd (fun p hp => ?_) hx b
    obtain ⟨t, ht, rfl⟩ := List.mem_map.mp hp
    exact (hts t ht).toNat_lt
  -- the index that an amplitude comes from lacks the digits found as well
  rw [hzero _ hplaced fun hfound => hnot ((consistent_placeDigits hd h hts hlive).mp hfound),
    mul_zero]

/-- A matrix acts on live qudits of the full register as it does at their places in the state. -/
theorem inner_eq_actOn {state : StateVector ℝ} (hrel : Restricts d n found psi state)
    (hts : ∀ t ∈ ts, InRange n t) (hlive : ∀ t ∈ ts, t ∉ found.map Prod.fst) (op : Operator ℝ)
    {y : ℕ} (hy : y < d ^ place (found.map Prod.fst) n) :
    let places := ts.map fun t => place (found.map Prod.fst) t.toNat
    (Tensor.inner (op.entry (readDigits d places y))
        (fun b => state.amplitude (placeDigits d places b y)) (d ^ places.length)).toComplex =
      FullRun.actOn d (fun i b => (op.entry i b).toComplex) (ts.map Int.toNat) psi
        (fullIndex d n found y) := by
  intro places
  have hplaces : ∀ p ∈ places, p < place (found.map Prod.fst) n := by
    intro p hp
    obtain ⟨t, ht, rfl⟩ := List.mem_map.mp hp
    exact place_lt ((hts t ht).toNat_not_mem (hlive t ht)) (hts t ht).toNat_lt
  unfold FullRun.actOn
  rw [Tensor.toComplex_inner, List.length_map, List.length_map,
    readDigits_fullIndex hd h hts hlive]
  refine sum_congr rfl fun b _ => ?_
  rw [hrel.amplitude_eq _ (placeDigits_lt hd hplaces hy b), fullIndex_placeDigits hd h hts hlive]

/-- An act on live qudits of the full register is that at their places in the state. -/
theorem Restricts.act {state : StateVector ℝ} (hrel : Restricts d n found psi state)
    {act : Act ℝ} (hfit : act.Fits d n) (hlive : ∀ q ∈ act.qudits, q ∉ found.map Prod.fst) :
    Restricts d n found (FullRun.act d psi act)
      ((act.rename (Engine.seat (found.map Prod.fst))).total d state) := by
  have hsize := hrel.size_eq
  cases act with
  | plain op targets =>
    have hrange : ∀ t ∈ targets, InRange n t := hfit.1.inRange
    have hlive : ∀ t ∈ targets, t ∉ found.map Prod.fst := hlive
    refine ⟨(Act.size_total ..).trans hsize, fun y hy => ?_, fun x hx hnot => ?_⟩
    · simp only [Act.rename, Act.total, StateVector.applyOn, map_toNat_seat]
      -- over the real numbers, rounding keeps the operator
      rw [StateVector.amplitude_build _ (hsize ▸ hy), Tensor.round_real, FullRun.act_plain]
      exact inner_eq_actOn hd h hrel hrange hlive op hy
    · rw [FullRun.act_plain]
      exact actOn_eq_zero hd h hrange hlive hrel.zero_off _ hx hnot
  | controlled op controls targets =>
    have hrange : ∀ t ∈ targets, InRange n t := hfit.2.1.inRange
    have htlive : ∀ t ∈ targets, t ∉ found.map Prod.fst :=
      fun t ht => hlive t (List.mem_append_right _ ht)
    have hclive : ∀ q ∈ controls, q ∉ found.map Prod.fst :=
      fun q hq => hlive q (List.mem_append_left _ hq)
    refine ⟨(Act.size_total ..).trans hsize, fun y hy => ?_, fun x hx hnot => ?_⟩
    · simp only [Act.rename, Act.total, StateVector.applyControlledOn, map_toNat_seat]
      rw [StateVector.amplitude_build _ (hsize ▸ hy)]
      unfold FullRun.act
      dsimp only
      rw [FullRun.exponent_eq_controlValue?, controlValue?_fullIndex hd h hfit.1.inRange hclive]
      -- Both sides branch on the value that the controls have in common: without one, or with zero,
      -- the amplitude stays; else that power of the operator acts.
      cases hvalue : StateVector.controlValue? d
          (controls.map fun t => place (found.map Prod.fst) t.toNat) y with
      | none => exact hrel.amplitude_eq y hy
      | some v =>
        cases v with
        | zero => exact hrel.amplitude_eq y hy
        | succ v =>
          have hv : v + 1 < d := controlValue?_lt hd hvalue
          have hpower : (Array.ofFn fun v : Fin d => op.pow v).getD (v + 1) op =
              op.pow (v + 1) := by
            simp [hv]
          simp only [Tensor.round_real, hpower]
          exact inner_eq_actOn hd h hrel hrange htlive (op.pow (v + 1)) hy
    -- off the digits found, an amplitude stays or is a sum of zeros
    · unfold FullRun.act FullRun.raised
      dsimp only
      split
      · exact hrel.zero_off x hx hnot
      · exact actOn_eq_zero hd h hrange htlive hrel.zero_off _ hx hnot

/-- Acts on live qudits of the full register are those at their places in the state. -/
theorem Restricts.acts {state : StateVector ℝ} (hrel : Restricts d n found psi state)
    {list : List (Act ℝ)} (hfit : ∀ act ∈ list, act.Fits d n)
    (hlive : ∀ act ∈ list, ∀ q ∈ act.qudits, q ∉ found.map Prod.fst) :
    Restricts d n found (list.foldl (FullRun.act d) psi)
      ((list.map (Act.rename (Engine.seat (found.map Prod.fst)))).foldl (Act.total d) state) := by
  induction list generalizing psi state with
  | nil => exact hrel
  | cons act list ih =>
    have hact := hrel.act hd h (hfit act List.mem_cons_self) (hlive act List.mem_cons_self)
    exact ih hact (fun act' hact' => hfit act' (List.mem_cons_of_mem _ hact'))
      fun act' hact' => hlive act' (List.mem_cons_of_mem _ hact')

end Acts

/-! ## Measurements -/

section Measurements

variable {psi : ℕ → ℂ} {ts : List Int} {j : ℕ} (hd : 0 < d) (h : Findings d n found)

include hd h

/-- The targets of a measurement spell the number found in the indices that have its digits. -/
theorem readDigits_fullIndex_spelled (hts : TargetList n ts)
    (hlive : ∀ t ∈ ts, t ∉ found.map Prod.fst) (hj : j < d ^ ts.length) (y : ℕ) :
    readDigits d (ts.map Int.toNat) (fullIndex d n (found ++ spelled d ts j) y) = j := by
  have hfound := consistent_fullIndex hd (h.append_spelled hd hts hlive j) y
  rw [(consistent_spelled hd).mp (consistent_append.mp hfound).2, Nat.mod_eq_of_lt hj]

/-- A branch of the state that has the amplitudes of the full register for a number found: it has
the weight of that number, and divided by its root it is what the projection leaves. -/
theorem Restricts.collapse {branch : StateVector ℝ} (hts : TargetList n ts)
    (hlive : ∀ t ∈ ts, t ∉ found.map Prod.fst) (hj : j < d ^ ts.length)
    (hzero : ∀ x < d ^ n, ¬ Consistent d found x → psi x = 0)
    (hsize : branch.size = d ^ place (found.map Prod.fst ++ ts) n)
    (hbranch : ∀ y < d ^ place (found.map Prod.fst ++ ts) n,
      (branch.amplitude y).toComplex = psi (fullIndex d n (found ++ spelled d ts j) y)) :
    (StateVector.chanceWeight branch : ℝ) = FullRun.weight d n (ts.map Int.toNat) psi j ∧
      Restricts d n (found ++ spelled d ts j) (FullRun.project d n (ts.map Int.toNat) psi j)
        (branch.divRoot (StateVector.chanceWeight branch : ℝ)) := by
  have hnew := h.append_spelled hd hts hlive j
  have hkeys : (found ++ spelled d ts j).map Prod.fst = found.map Prod.fst ++ ts := by
    rw [List.map_append, keys_spelled]
  have hread := readDigits_fullIndex_spelled hd h hts hlive hj
  -- an index that does not have the new digits spells another number or was zero before
  have hoff : ∀ x < d ^ n, ¬ Consistent d (found ++ spelled d ts j) x →
      readDigits d (ts.map Int.toNat) x = j → psi x = 0 := by
    intro x hx hnot hspell
    refine hzero x hx fun hold => hnot (consistent_append.mpr ⟨hold, ?_⟩)
    rw [consistent_spelled hd, Nat.mod_eq_of_lt hj]
    exact hspell
  have hweight : (StateVector.chanceWeight branch : ℝ) =
      FullRun.weight d n (ts.map Int.toNat) psi j := by
    unfold FullRun.weight
    -- the sum over the full register has nonzero terms at full indices only
    rw [sum_fullIndex hd hnew, hkeys, StateVector.chanceWeight_real, hsize]
    · refine sum_congr rfl fun y hy => ?_
      rw [if_pos (hread y), hbranch y (mem_range.mp hy)]
    · intro x hx hnot
      split
      · next hspell => rw [hoff x hx hnot hspell, Complex.normSq_zero]
      · rfl
  refine ⟨hweight, ⟨?_, fun y hy => ?_, fun x hx hnot => ?_⟩⟩
  · rw [StateVector.size_divRoot, hkeys]
    exact hsize
  · rw [hkeys] at hy
    rw [StateVector.amplitude_divRoot_real, hbranch y hy, hweight]
    unfold FullRun.project
    rw [if_pos (hread y)]
  · unfold FullRun.project
    split
    · next hspell => rw [hoff x hx hnot hspell, zero_div]
    · rfl

/-- The slice of the state for a digit has the amplitudes of the full register for that digit. -/
theorem Restricts.slice {state : StateVector ℝ} (hrel : Restricts d n found psi state) {q : Int}
    (hq : InRange n q) (hlive : q ∉ found.map Prod.fst) {v : ℕ} (hv : v < d) :
    let branch := state.slice d (place (found.map Prod.fst) q.toNat) v
    branch.size = d ^ place (found.map Prod.fst ++ [q]) n ∧
      ∀ y < d ^ place (found.map Prod.fst ++ [q]) n,
        (branch.amplitude y).toComplex = psi (fullIndex d n (found ++ spelled d [q] v) y) := by
  intro branch
  have hts : TargetList n [q] := ⟨List.cons_ne_nil _ _, List.nodup_singleton q, by simpa using hq⟩
  have hnew := h.append_spelled hd hts (by simpa using hlive) v
  have hspelled := spelled_singleton q hv
  have hcount := place_append_add_one (hq.toNat_not_mem hlive) hq.toNat_lt
  have hplace := place_lt (hq.toNat_not_mem hlive) hq.toNat_lt
  rw [hq.toNat_eq] at hcount
  have hsize : branch.size = d ^ place (found.map Prod.fst ++ [q]) n := by
    refine StateVector.size_slice hd ?_ _ _
    rw [hrel.size_eq, hcount]
  refine ⟨hsize, fun y hy => ?_⟩
  -- the slice reads the state at its own index with the digit put in
  have hlarger : insertDigit d (place (found.map Prod.fst) q.toNat) v y <
      d ^ place (found.map Prod.fst) n := by
    rw [← hcount]
    exact insertDigit_lt (by omega) hv hy
  have hinside : y < state.size / d := by
    rw [hrel.size_eq, ← hcount, Nat.pow_succ, Nat.mul_div_cancel _ hd]
    exact hy
  have hbuild : branch.amplitude y =
      state.amplitude (insertDigit d (place (found.map Prod.fst) q.toNat) v y) :=
    StateVector.amplitude_build _ hinside
  rw [hspelled] at hnew ⊢
  rw [hbuild, hrel.amplitude_eq _ hlarger, fullIndex_append hnew]

/-- The branch of a column of a basis has the amplitudes of the full register for the number of the
column, after the adjoint of the basis acted on the targets. -/
theorem Restricts.branchOfColumn {state : StateVector ℝ} (hrel : Restricts d n found psi state)
    (hts : TargetList n ts) (hlive : ∀ t ∈ ts, t ∉ found.map Prod.fst) (hj : j < d ^ ts.length)
    (basis : Operator ℝ) :
    let places := ts.map fun t => place (found.map Prod.fst) t.toNat
    let branch := StateVector.branchOfColumn d (place (found.map Prod.fst) n) basis places state j
    branch.size = d ^ place (found.map Prod.fst ++ ts) n ∧
      ∀ y < d ^ place (found.map Prod.fst ++ ts) n, (branch.amplitude y).toComplex =
        FullRun.actOn d (fun i b => (starRingEnd ℂ) (basis.entry b i).toComplex)
          (ts.map Int.toNat) psi (fullIndex d n (found ++ spelled d ts j) y) := by
  intro places branch
  have hcount := place_append_list hts.inRange hlive hts.nodup
  have hplaces : ∀ p ∈ places, p < place (found.map Prod.fst) n := by
    intro p hp
    obtain ⟨t, ht, rfl⟩ := List.mem_map.mp hp
    exact place_lt ((hts.inRange t ht).toNat_not_mem (hlive t ht)) (hts.inRange t ht).toNat_lt
  have hnodup : places.Nodup := by
    refine List.Nodup.map_on (fun t ht t' ht' heq => ?_) hts.nodup
    have hsame := place_injective ((hts.inRange t ht).toNat_not_mem (hlive t ht))
      ((hts.inRange t' ht').toNat_not_mem (hlive t' ht')) heq
    rw [← (hts.inRange t ht).toNat_eq, hsame, (hts.inRange t' ht').toNat_eq]
  have hlength : places.length = ts.length := List.length_map ..
  -- the branch has one qudit less for each target
  have hexponent : place (found.map Prod.fst) n - places.length =
      place (found.map Prod.fst ++ ts) n := by omega
  have hsize : branch.size = d ^ place (found.map Prod.fst ++ ts) n := by
    rw [← hexponent]
    exact StateVector.size_branchOfColumn _ _ _
  refine ⟨hsize, fun y hy => ?_⟩
  have hroom : makeRoom d (ascending (place (found.map Prod.fst) n) places) y <
      d ^ place (found.map Prod.fst) n := by
    refine makeRoom_lt hd (pairwise_ascending _ _) (fun p hp => (mem_ascending.mp hp).1) ?_ hy
    rw [length_ascending hplaces hnodup, hlength]
    exact hcount
  have hbuild : branch.amplitude y = Tensor.inner (fun b => (basis.entry b j).conj)
      (fun b => state.amplitude (placeDigits d places b
        (makeRoom d (ascending (place (found.map Prod.fst) n) places) y)))
      (d ^ places.length) := by
    rw [← hexponent] at hy
    exact StateVector.amplitude_build _ hy
  rw [hbuild, Tensor.toComplex_inner]
  unfold FullRun.actOn
  rw [readDigits_fullIndex_spelled hd h hts hlive hj, hlength, List.length_map]
  refine sum_congr rfl fun b _ => ?_
  rw [hrel.amplitude_eq _ (placeDigits_lt hd hplaces hroom b),
    fullIndex_makeRoom hd h hts hlive j b y, Amplitude.toComplex_conj]

/-- A digit of a live qudit has the weight in the state that it has in the full register, and what
is left of the state is what the projection leaves. -/
theorem Restricts.measured {state : StateVector ℝ} (hrel : Restricts d n found psi state) {q : Int}
    (hq : InRange n q) (hlive : q ∉ found.map Prod.fst) {v : ℕ} (hv : v < d) :
    let p := place (found.map Prod.fst) q.toNat
    (StateVector.chanceWeight (state.slice d p v) : ℝ) = FullRun.weight d n [q.toNat] psi v ∧
      Findings d n (found ++ [(q, v)]) ∧
      Restricts d n (found ++ [(q, v)]) (FullRun.project d n [q.toNat] psi v)
        (StateVector.remaining ℝ d p v state) := by
  intro p
  have hts : TargetList n [q] := ⟨List.cons_ne_nil _ _, List.nodup_singleton q, by simpa using hq⟩
  have htslive : ∀ t ∈ [q], t ∉ found.map Prod.fst := by simpa using hlive
  obtain ⟨hsize, hbranch⟩ := hrel.slice hd h hq hlive hv
  obtain ⟨hweight, hrest⟩ := Restricts.collapse hd h hts htslive (by simpa using hv) hrel.zero_off
    hsize hbranch
  have hnew := h.append_spelled hd hts htslive v
  rw [spelled_singleton q hv] at hrest hnew
  exact ⟨hweight, hnew, hrest⟩

end Measurements

end QuditSim
