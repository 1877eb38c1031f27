import QuditSim.Proofs.Extended
import QuditSim.Proofs.State.Branches

/-!
# What is drawn has weight

An index is drawn with weights that come of a state, and then the state is divided by the root of
the weight at the index. In exact arithmetic that weight is never zero: weights that are not finite,
negative or zero altogether are refused before anything is drawn, and of the others only one that is
positive is found. The weights may come of any state, also of one with entries that are not finite.

- `sampleBy` is the drawing with any rule that turns probabilities into an index, and
  `FindsPositive` is what is asked of a rule. `findsPositive_pick`: the rule of the library
  satisfies it.
- `sampleBy_cases`: what is refused, and what is drawn otherwise.
- `StateVector.yields_measureOne`, `StateVector.yields_measure` and `Trajectory.yields_apply`: what
  measurements and channels draw, for every state and every sequence of numbers.
- `Trajectory.Applied.lastBranch_lt`: the branch that a channel tells is one of an operator, at any
  time.
-/

namespace QuditSim

open Fallible

/-! ## Rules -/

/-- The index that a rule finds for weights, which are checked as the library checks them. -/
def sampleBy {S : Type} [Scalar S] (rule : List S → ℕ) (weights : List S) : Except StateFault ℕ :=
  if weights = [] then .error .noWeights
  else if weights.any fun w => !Scalar.isFinite w || decide (w < 0) then
    .error (.badWeights (weights.map Scalar.toFloat))
  else
    let total := weights.foldl (· + ·) 0
    if total ≤ 0 then .error .zeroWeights else .ok (rule (weights.map (· / total)))

/-- The library draws by its own rule. -/
theorem sampleIndex_eq_sampleBy {S : Type} [Scalar S] (weights : List S) (u : S) :
    sampleIndex weights u = sampleBy (pick u) weights := rfl

/-- Of probabilities that sum to one, a rule finds one that is positive. -/
def FindsPositive (rule : List Extended → ℕ) : Prop :=
  ∀ ps : List ℝ, (∀ p ∈ ps, 0 ≤ p) → ps.sum = 1 → 0 < ps.getD (rule (ps.map .finite)) 0

theorem getD_map_finite (xs : List ℝ) (i : ℕ) :
    (xs.map Extended.finite).getD i 0 = .finite (xs.getD i 0) := by
  simp only [List.getD_eq_getElem?_getD, List.getElem?_map]
  cases xs[i]? <;> rfl

/-- The rule of the library finds a positive probability, whatever number it is given. -/
theorem findsPositive_pick (u : Extended) : FindsPositive (pick u) := by
  intro ps hnonneg hsum
  rcases pickFrom_cases u (ps.map .finite) 0 0 0 with ⟨k, hk, heq⟩ | ⟨hnone, -⟩
  · have hindex : pick u (ps.map .finite) = k := heq.trans (Nat.zero_add k)
    rw [getD_map_finite] at hk
    rw [hindex]
    exact Extended.zero_lt_finite.mp hk
  -- probabilities none of which is positive do not sum to one
  · exfalso
    have hzero : ∀ p ∈ ps, p = 0 := fun p hp =>
      le_antisymm (not_lt.mp (hnone _ (List.mem_map_of_mem hp))) (hnonneg p hp)
    rw [List.sum_eq_zero hzero] at hsum
    exact zero_ne_one hsum

/-! ## What is drawn -/

/-- Weights that are refused: there are none, one of them is negative or not finite, or their sum is
zero. -/
def Unusable (weights : List Extended) : Prop :=
  weights = [] ∨ (∃ w ∈ weights, w < 0 ∨ Scalar.isFinite w = false) ∨ weights.sum = 0

/-- Unusable weights are refused as values. All others are real numbers, and the rule is given the
probabilities that go with them. -/
theorem sampleBy_cases (rule : List Extended → ℕ) (weights : List Extended) :
    (Unusable weights ∧ ∃ fault, sampleBy rule weights = .error fault ∧ fault.IsValue) ∨
      ∃ ws : List ℝ, weights = ws.map .finite ∧ (∀ w ∈ ws, 0 ≤ w) ∧ 0 < ws.sum ∧
        sampleBy rule weights = .ok (rule ((ws.map (· / ws.sum)).map .finite)) := by
  unfold sampleBy
  by_cases hnil : weights = []
  · rw [if_pos hnil]
    exact .inl ⟨.inl hnil, _, rfl, trivial⟩
  rw [if_neg hnil]
  by_cases hbad : (weights.any fun w => !Scalar.isFinite w || decide (w < 0)) = true
  · rw [if_pos hbad]
    obtain ⟨w, hw, hcase⟩ := List.any_eq_true.mp hbad
    refine .inl ⟨.inr (.inl ⟨w, hw, ?_⟩), _, rfl, trivial⟩
    rw [Bool.or_eq_true, Bool.not_eq_true', decide_eq_true_eq] at hcase
    exact hcase.symm
  rw [if_neg hbad]
  have hgood : ∀ w ∈ weights, Scalar.isFinite w = true ∧ ¬ w < 0 := by
    simpa using hbad
  obtain ⟨ws, rfl, hws⟩ := Extended.exists_map_finite hgood
  have htotal : (ws.map Extended.finite).foldl (· + ·) 0 = .finite ws.sum := by
    rw [← zero_add ws.sum]
    exact Extended.foldl_finite ws 0
  dsimp only
  rw [htotal]
  by_cases hle : ws.sum ≤ 0
  · have hzero : ws.sum = 0 := le_antisymm hle (List.sum_nonneg hws)
    rw [if_pos (Extended.finite_le_zero.mpr hle)]
    refine .inl ⟨.inr (.inr ?_), _, rfl, trivial⟩
    rw [Extended.sum_finite, hzero]
    rfl
  · have hpos : 0 < ws.sum := not_le.mp hle
    rw [if_neg fun h => hle (Extended.finite_le_zero.mp h)]
    refine .inr ⟨ws, rfl, hws, hpos, ?_⟩
    rw [List.map_map, List.map_map]
    congr 2
    exact List.map_congr_left fun w _ => Extended.finite_div hpos.ne'

/-- Real numbers that are not negative and have a positive sum can be drawn from. -/
theorem not_unusable {ws : List ℝ} (hws : ∀ w ∈ ws, 0 ≤ w) (hsum : 0 < ws.sum) :
    ¬ Unusable (ws.map .finite) := by
  rintro (hnil | ⟨w, hw, hcase⟩ | hzero)
  · rw [List.map_eq_nil_iff.mp hnil] at hsum
    exact lt_irrefl 0 hsum
  · obtain ⟨x, hx, rfl⟩ := List.mem_map.mp hw
    rcases hcase with hneg | hinfinite
    · exact absurd (Extended.finite_lt_zero.mp hneg) (not_lt.mpr (hws x hx))
    · cases hinfinite
  · rw [Extended.sum_finite] at hzero
    exact hsum.ne' (Extended.finite.inj hzero)

/-- From such numbers the library draws, whatever number it is given. -/
theorem exists_sampleIndex {ws : List ℝ} (hws : ∀ w ∈ ws, 0 ≤ w) (hsum : 0 < ws.sum)
    (u : Extended) : ∃ i, sampleIndex (ws.map .finite) u = .ok i := by
  rcases sampleBy_cases (pick u) (ws.map .finite) with ⟨hunusable, -⟩ | ⟨ws', -, -, -, hok⟩
  · exact absurd hunusable (not_unusable hws hsum)
  · exact ⟨_, hok⟩

/-- An index that is drawn is one of the weights, and its weight is positive. -/
theorem drawn_of_sampleBy {rule : List Extended → ℕ} (hrule : FindsPositive rule)
    {weights : List Extended} {i : ℕ} (h : sampleBy rule weights = .ok i) :
    i < weights.length ∧ 0 < weights.getD i 0 := by
  rcases sampleBy_cases rule weights with ⟨-, fault, hfault, -⟩ | ⟨ws, rfl, hws, hsum, hok⟩
  · cases hfault.symm.trans h
  cases hok.symm.trans h
  -- the probabilities are a distribution, so the rule finds one of them that is positive
  have hnonneg : ∀ p ∈ ws.map (· / ws.sum), 0 ≤ p :=
    List.forall_mem_map.mpr fun w hw => div_nonneg (hws w hw) hsum.le
  have hone : (ws.map (· / ws.sum)).sum = 1 := by
    simp only [div_eq_mul_inv]
    rw [List.sum_map_mul_right, List.map_id', mul_inv_cancel₀ hsum.ne']
  have hdrawn := hrule _ hnonneg hone
  generalize rule ((ws.map (· / ws.sum)).map .finite) = i at hdrawn
  have hdiv : (ws.map (· / ws.sum)).getD i 0 = ws.getD i 0 / ws.sum := by
    simp only [List.getD_eq_getElem?_getD, List.getElem?_map]
    cases ws[i]? with
    | none => exact (zero_div _).symm
    | some w => rfl
  have hpos : 0 < ws.getD i 0 := by
    rw [hdiv] at hdrawn
    exact (div_pos_iff_of_pos_right hsum).mp hdrawn
  refine ⟨?_, ?_⟩
  · rw [List.length_map]
    by_contra hlen
    rw [List.getD_eq_getElem?_getD, List.getElem?_eq_none (not_lt.mp hlen)] at hpos
    exact lt_irrefl 0 hpos
  · rw [getD_map_finite]
    exact Extended.zero_lt_finite.mpr hpos

/-- An index is one of some weights, its weight is positive, and the root of that can be divided by.
-/
structure Drawn (weights : List Extended) (i : ℕ) : Prop where
  /-- There is a weight at the index. -/
  lt : i < weights.length
  /-- The weight is positive. -/
  pos : 0 < weights.getD i 0
  /-- The root of the weight is not zero. -/
  sqrt_ne_zero : Scalar.sqrt (weights.getD i 0) ≠ 0

theorem Drawn.of_sampleIndex {weights : List Extended} {u : Extended} {i : ℕ}
    (h : sampleIndex weights u = .ok i) : Drawn weights i := by
  obtain ⟨hlt, hpos⟩ := drawn_of_sampleBy (findsPositive_pick u) h
  exact ⟨hlt, hpos, Extended.sqrt_ne_zero hpos⟩

theorem Sampling.run_sample_eq_ok {S : Type} [Scalar S] {weights : List S} {draws draws' : Draws S}
    {i : ℕ} (h : (sample weights).run.run draws = (.ok i, draws')) :
    sampleIndex weights draws.current = .ok i := by
  rw [run_sample] at h
  split at h
  · next j hj =>
    cases h
    exact hj
  · cases h

/-- From whatever numbers a computation draws, `Q` holds of what it returns, unless it fails. -/
def Sampling.Yields {S α : Type} (x : Sampling S α) (Q : α → Prop) : Prop :=
  ∀ draws draws' value, x.run.run draws = (.ok value, draws') → Q value

/-! ## Measurements -/

namespace StateVector

section Outcomes

variable {S R : Type} [Scalar S] [Scalar R] [Rounding S R] [Rounding R S] {d : ℕ}
  {state : StateVector R}

/-- What positions are found in one after the other are digits. -/
theorem lt_of_measureEach {targets : List ℕ} {product : S} {draws draws' : Draws S}
    {found : List ℕ × S × StateVector R}
    (h : (measureEach d targets state product).run.run draws = (.ok found, draws')) :
    ∀ v ∈ found.1, v < d := by
  -- as for sizes, the induction is on the number of positions
  induction hlength : targets.length generalizing targets state product draws found with
  | zero =>
    obtain rfl := List.length_eq_zero_iff.mp hlength
    unfold measureEach at h
    cases h
    exact nofun
  | succ k ih =>
    cases targets with
    | nil => cases hlength
    | cons p ps =>
      unfold measureEach at h
      obtain ⟨first, draws₁, hfirst, h⟩ := Sampling.run_bind_eq_ok.mp h
      obtain ⟨⟨outcomes, total, rest⟩, draws₂, hrest, h⟩ := Sampling.run_bind_eq_ok.mp h
      cases h
      rw [run_measureOne] at hfirst
      split at hfirst
      · next v hv =>
        cases hfirst
        have hlater := ih hrest (by rw [closeGap, List.length_map]; exact Nat.succ.inj hlength)
        exact List.forall_mem_cons.mpr ⟨lt_of_digitWeights hv, hlater⟩
      · cases hfirst

/-- What a sequential measurement finds are digits. -/
theorem lt_of_measureSequential {checking : Bool} {targets : List Argument} {draws draws' : Draws S}
    {found : List ℕ × S × StateVector R}
    (h : (measureSequential checking state targets (.nat d)).run.run draws = (.ok found, draws')) :
    ∀ v ∈ found.1, v < d := by
  unfold measureSequential at h
  obtain ⟨n, draws₁, -, h⟩ := Sampling.run_bind_eq_ok.mp h
  by_cases hne : targets.isEmpty
  · rw [if_pos hne] at h
    cases h
  · rw [if_neg hne] at h
    obtain ⟨-, draws₂, -, h⟩ := Sampling.run_bind_eq_ok.mp h
    simp only [extentOf_nat, Sampling.lift_ok_bind] at h
    obtain ⟨⟨outcomes, product, rest⟩, draws₃, heach, h⟩ := Sampling.run_bind_eq_ok.mp h
    by_cases hshort : (leadingPlaces targets).length < targets.length
    · rw [if_pos hshort] at h
      cases h
    · rw [if_neg hshort] at h
      obtain ⟨rest', draws₄, -, h⟩ := Sampling.run_bind_eq_ok.mp h
      cases h
      have hlt := lt_of_measureEach heach
      exact hlt

/-- A joint measurement draws a column of the basis with the weights of the columns. -/
theorem sampled_of_measure {checking : Bool} {basis : Operator R} {targets : List Argument}
    {dim : Argument} {draws draws' : Draws S} {found : JointCollapse S R}
    (h : (measure checking state basis targets dim).run.run draws = (.ok found, draws')) :
    found.weights.length = basis.columns ∧
      ∃ u, sampleIndex found.weights u = .ok found.outcome := by
  unfold measure at h
  obtain ⟨n, draws₁, -, h⟩ := Sampling.run_bind_eq_ok.mp h
  by_cases hne : targets.isEmpty
  · rw [if_pos hne] at h
    cases h
  · rw [if_neg hne] at h
    obtain ⟨-, draws₂, -, h⟩ := Sampling.run_bind_eq_ok.mp h
    obtain ⟨-, draws₃, -, h⟩ := Sampling.run_bind_eq_ok.mp h
    obtain ⟨extent, draws₄, -, h⟩ := Sampling.run_bind_eq_ok.mp h
    obtain ⟨places, draws₅, -, h⟩ := Sampling.run_bind_eq_ok.mp h
    obtain ⟨j, draws₆, hsample, h⟩ := Sampling.run_bind_eq_ok.mp h
    obtain ⟨-, draws₇, -, h⟩ := Sampling.run_bind_eq_ok.mp h
    cases h
    refine ⟨?_, _, Sampling.run_sample_eq_ok hsample⟩
    simp

end Outcomes

/-- Measuring one position finds a digit whose weight is positive. -/
theorem yields_measureOne (d p : ℕ) (state : StateVector Extended) :
    (measureOne d p state).Yields fun found : Collapse Extended Extended =>
      found.outcome < d ∧ 0 < found.weight ∧ Scalar.sqrt found.weight ≠ 0 := by
  intro draws draws' found h
  rw [run_measureOne] at h
  split at h
  · next v hv =>
    cases h
    have hlt := lt_of_digitWeights hv
    obtain ⟨-, hpos, hroot⟩ := Drawn.of_sampleIndex hv
    rw [digitWeights, getD_map_range _ hlt] at hpos hroot
    exact ⟨hlt, hpos, hroot⟩
  · cases h

/-- A joint measurement finds a column whose weight is positive. -/
theorem yields_measure (checking : Bool) (state : StateVector Extended) (basis : Operator Extended)
    (targets : List Argument) (dim : Argument) :
    (measure checking state basis targets dim).Yields fun found : JointCollapse Extended Extended =>
      Drawn found.weights found.outcome := by
  intro draws draws' found h
  obtain ⟨-, u, hsample⟩ := sampled_of_measure h
  exact .of_sampleIndex hsample

end StateVector

/-! ## Noise -/

/-- There is a vector for each operator. -/
theorem StateVector.length_branches {R : Type} [Scalar R] {state : StateVector R}
    {ops : List (Operator R)} {position dim : Argument} {vectors : List (StateVector R)}
    (h : state.branches ops position dim = .ok vectors) : vectors.length = ops.length := by
  simp only [branches, bind_eq_ok] at h
  obtain ⟨_, -, _, -, _, -, _, -, hvectors⟩ := h
  exact (mapM_eq_ok hvectors).1

namespace Trajectory

section Branches

variable {S R : Type} [Scalar S] [Scalar R] [Rounding S R] [Rounding R S]

/-- A channel draws a branch with the weights of the branches, of which there is one for each
operator. -/
theorem sampled_of_apply {model model' : Trajectory S} {state state' : StateVector R}
    {position : Argument} {draws draws' : Draws S}
    (h : (model.apply state position).run.run draws = (.ok (model', state'), draws')) :
    model'.lastWeights.length = model.channel.ops.length ∧
      ∃ u, sampleIndex model'.lastWeights u = .ok model'.lastBranch := by
  unfold apply at h
  dsimp only at h
  obtain ⟨vectors, draws₁, hvectors, h⟩ := Sampling.run_bind_eq_ok.mp h
  obtain ⟨branch, draws₂, hsample, h⟩ := Sampling.run_bind_eq_ok.mp h
  cases h
  refine ⟨?_, _, Sampling.run_sample_eq_ok hsample⟩
  have hlength := StateVector.length_branches (Sampling.run_lift_eq_ok.mp hvectors).1
  rw [List.length_map] at hlength
  exact (List.length_map ..).trans hlength

/-- The branch that is drawn is one of an operator of the channel. -/
theorem lastBranch_lt_of_apply {model model' : Trajectory S} {state state' : StateVector R}
    {position : Argument} {draws draws' : Draws S}
    (h : (model.apply state position).run.run draws = (.ok (model', state'), draws')) :
    model'.lastBranch < model.channel.ops.length := by
  obtain ⟨hlength, u, hsample⟩ := sampled_of_apply h
  exact hlength ▸ lt_of_sampleIndex hsample

/-- A channel that was applied to any states at any positions, so far without a fault. -/
inductive Applied (R : Type) [Scalar R] [Rounding S R] [Rounding R S] (channel : Channel S) :
    Trajectory S → Prop where
  /-- The channel has not been applied yet. -/
  | start : Applied R channel (start channel)
  /-- The channel was applied once more. -/
  | apply {model model' : Trajectory S} {state state' : StateVector R} {position : Argument}
      {draws draws' : Draws S} (h : Applied R channel model)
      (happly : (model.apply state position).run.run draws = (.ok (model', state'), draws')) :
    Applied R channel model'

theorem Applied.channel_eq {channel : Channel S} {model : Trajectory S}
    (h : Applied R channel model) : model.channel = channel := by
  induction h with
  | start => rfl
  | apply h happly ih => exact (channel_of_apply happly).trans ih

/-- The branch drawn last is one of an operator of the channel, also before the channel is applied. -/
theorem Applied.lastBranch_lt {channel : Channel S} {model : Trajectory S}
    (h : Applied R channel model) (hops : channel.ops ≠ []) :
    model.lastBranch < channel.ops.length := by
  cases h with
  | start => exact List.length_pos_iff.mpr hops
  | apply h happly => exact h.channel_eq ▸ lastBranch_lt_of_apply happly

end Branches

/-- A channel draws the branch of one of its operators, and the weight of the branch is positive. -/
theorem yields_apply (model : Trajectory Extended) (state : StateVector Extended)
    (position : Argument) :
    (model.apply state position).Yields fun found =>
      found.1.lastBranch < model.channel.ops.length ∧
        Drawn found.1.lastWeights found.1.lastBranch := by
  intro draws draws' found h
  obtain ⟨-, u, hsample⟩ := sampled_of_apply h
  exact ⟨lastBranch_lt_of_apply h, .of_sampleIndex hsample⟩

end Trajectory

end QuditSim
