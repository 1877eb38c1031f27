import QuditSim.Noise.Model
import QuditSim.Proofs.State.Kernels

/-!
# Drawings on states of a register

Measurements and noise draw an index and keep one branch of the state. For arguments that fit the
register, each of them is one sampling from the weights of the branches, and what it leaves is the
branch of the sampled index.

- `StateVector.run_measureSequential` is the measurement of one qudit, from `StateVector.slice`.
- `StateVector.run_measure` is the joint measurement, from `StateVector.branchOfColumn`.
- `StateVector.size_measureSequential` and `StateVector.size_measure`: whatever the arguments are, a
  measurement that succeeds leaves a smaller state.
- `Trajectory.run_apply` is one application of a noise channel.
-/

namespace QuditSim

namespace Sampling

variable {S α β : Type}

/-- A sequence of drawings goes on from the numbers that its first part leaves. -/
theorem run_bind (x : Sampling S α) (f : α → Sampling S β) (draws : Draws S) :
    (x >>= f).run.run draws = match x.run.run draws with
      | (.ok a, draws') => (f a).run.run draws'
      | (.error fault, draws') => (.error fault, draws') := by
  rw [ExceptT.run_bind, StateT.run_bind]
  generalize x.run.run draws = ended
  obtain ⟨result, draws'⟩ := ended
  cases result <;> rfl

/-- A sequence of drawings that succeeds is one whose parts do. -/
theorem run_bind_eq_ok {x : Sampling S α} {f : α → Sampling S β} {draws draws'' : Draws S} {b : β} :
    (x >>= f).run.run draws = (.ok b, draws'') ↔
      ∃ a draws', x.run.run draws = (.ok a, draws') ∧ (f a).run.run draws' = (.ok b, draws'') := by
  rw [run_bind]
  cases x.run.run draws with
  | mk result draws' =>
    cases result with
    | error fault =>
      constructor
      · rintro ⟨⟩
      · rintro ⟨_, _, ⟨⟩, -⟩
    | ok a =>
      constructor
      · exact fun h => ⟨a, draws', rfl, h⟩
      · rintro ⟨_, _, ⟨⟩, h⟩
        exact h

theorem run_lift_eq_ok {x : Except StateFault α} {draws draws' : Draws S} {a : α} :
    (liftM x : Sampling S α).run.run draws = (.ok a, draws') ↔ x = .ok a ∧ draws = draws' := by
  cases x with
  | ok value =>
    constructor
    · rintro ⟨⟩
      exact ⟨rfl, rfl⟩
    · rintro ⟨⟨⟩, rfl⟩
      rfl
  | error fault =>
    constructor
    · rintro ⟨⟩
    · rintro ⟨⟨⟩, -⟩

@[simp] theorem run_pure (a : α) (draws : Draws S) :
    (pure a : Sampling S α).run.run draws = (.ok a, draws) := rfl

@[simp] theorem run_lift (x : Except StateFault α) (draws : Draws S) :
    (liftM x : Sampling S α).run.run draws = (x, draws) := by
  cases x <;> rfl

/-- A value that is there is handed on. -/
@[simp] theorem lift_ok_bind (a : α) (f : α → Sampling S β) :
    ((liftM (Except.ok a : Except StateFault α) : Sampling S α) >>= f) = f a := rfl

end Sampling

namespace StateVector

variable {S R : Type} [Scalar S] [Scalar R] [Rounding S R] {d m : Nat} {state : StateVector R}
  {checking : Bool}

@[simp] theorem size_divRoot (state : StateVector R) (weight : S) :
    (state.divRoot weight).size = state.size := by
  simp [divRoot]

@[simp] theorem size_normalizedBranch (branch : StateVector R) (weight : S) :
    (normalizedBranch branch weight).size = branch.size := by
  unfold normalizedBranch
  split
  · exact size_divRoot branch weight
  · exact size_build _ _

/-- A slice has the amplitudes of one qudit fewer. -/
theorem size_slice (hd : 0 < d) (hsize : state.size = d ^ (m + 1)) (p v : Nat) :
    (slice d p v state).size = d ^ m := by
  rw [slice, size_build, hsize, Nat.pow_succ, Nat.mul_div_cancel _ hd]

@[simp] theorem size_branchOfColumn (basis : Operator R) (targets : List Nat) (column : Nat) :
    (branchOfColumn d m basis targets state column).size = d ^ (m - targets.length) := by
  simp [branchOfColumn]

/-! ## One qudit -/

variable [Rounding R S]

/-- The weights of the digits at a position, as chance takes them. -/
def digitWeights (d p : Nat) (state : StateVector R) : List S :=
  (List.range d).map fun v => chanceWeight (slice d p v state)

omit [Rounding S R] in
/-- What is sampled from the weights of the digits is a digit. -/
theorem lt_of_digitWeights {p v : Nat} {u : S}
    (h : sampleIndex (digitWeights d p state : List S) u = .ok v) : v < d := by
  simpa [digitWeights] using lt_of_sampleIndex h

/-- What is left of a state when a digit was found at a position. -/
def remaining (S : Type) [Scalar S] [Rounding S R] [Rounding R S] (d p v : Nat)
    (state : StateVector R) : StateVector R :=
  (slice d p v state).divRoot (chanceWeight (slice d p v state) : S)

/-- The item of a listed function at a place of the list. -/
theorem getD_map_range {α : Type} (f : Nat → α) {n i : Nat} (hi : i < n) (default : α) :
    ((List.range n).map f).getD i default = f i := by
  simp [hi]

/-- Measuring one position samples a digit from the weights of the digits. -/
theorem run_measureOne (d p : Nat) (state : StateVector R) (draws : Draws S) :
    (measureOne (S := S) d p state).run.run draws =
      match sampleIndex (digitWeights d p state) draws.current with
      | .ok v => (.ok ⟨v, chanceWeight (slice d p v state), remaining S d p v state⟩, draws.advance)
      | .error fault => (.error fault, draws) := by
  have hweights : ((List.range d).map fun v => slice d p v state).map chanceWeight =
      (digitWeights d p state : List S) := by
    rw [List.map_map]
    rfl
  unfold measureOne
  dsimp only
  rw [hweights, Sampling.run_bind, run_sample]
  cases h : sampleIndex (digitWeights d p state) draws.current with
  | error fault => rfl
  | ok v =>
    -- the sampled digit is below the dimension, so weight and slice are in the lists
    have hv := lt_of_digitWeights h
    dsimp only
    rw [Sampling.run_pure, digitWeights, getD_map_range _ hv, getD_map_range _ hv]
    rfl

/-- Measuring a list of one position measures that position. -/
theorem measureEach_singleton (d p : Nat) (state : StateVector R) (product : S) :
    measureEach d [p] state product = measureOne d p state >>= fun found =>
      pure ([found.outcome], product * found.weight, found.state) := by
  unfold measureEach closeGap
  unfold measureEach
  rfl

/-- For arguments that fit the register, positions are measured one after the other, and the norm of
the state that remains is checked. -/
theorem measureSequential_eq (checking : Bool) (hd : 2 ≤ d) (hsize : state.size = d ^ m)
    {targets : List Int} (htargets : TargetList m targets) :
    measureSequential (S := S) checking state (targets.map .int) (.nat d) =
      measureEach d (targets.map Int.toNat) state 1 >>= fun found => do
        let rest ← (liftM (found.2.2.checked checking) : Sampling S _)
        return (found.1, found.2.1, rest) := by
  have hpositions : checkPositions "target" (targets.map .int) m = .ok () :=
    checkPositions_int_eq_ok htargets.inRange htargets.nodup
  unfold measureSequential
  rw [hsize, quditCount_pow hd, isEmpty_map_int htargets.ne_nil]
  simp only [Sampling.lift_ok_bind, hpositions, extentOf_nat, leadingPlaces_map_int, List.length_map,
    Nat.lt_irrefl, if_false]
  rfl

/-- Measuring one qudit of a register samples a digit and checks the state that remains. -/
theorem run_measureSequential (checking : Bool) (hd : 2 ≤ d) (hsize : state.size = d ^ m) {p : Int}
    (hp : InRange m p) (draws : Draws S) :
    (measureSequential (S := S) checking state [.int p] (.nat d)).run.run draws =
      match sampleIndex (digitWeights d p.toNat state) draws.current with
      | .ok v =>
        match (remaining S d p.toNat v state).checked checking with
        | .ok rest =>
          (.ok ([v], 1 * chanceWeight (slice d p.toNat v state), rest), draws.advance)
        | .error fault => (.error fault, draws.advance)
      | .error fault => (.error fault, draws) := by
  have htargets : TargetList m [p] :=
    ⟨List.cons_ne_nil _ _, List.pairwise_singleton _ _, by simpa using hp⟩
  have hsequence := measureSequential_eq (S := S) checking hd hsize htargets
  rw [List.map_singleton, List.map_singleton, measureEach_singleton] at hsequence
  rw [hsequence, Sampling.run_bind, Sampling.run_bind, run_measureOne]
  cases h : sampleIndex (digitWeights d p.toNat state) draws.current with
  | error fault => rfl
  | ok v =>
    dsimp only
    rw [Sampling.run_pure]
    dsimp only
    rw [Sampling.run_bind, Sampling.run_lift]
    cases (remaining S d p.toNat v state).checked checking <;> rfl

/-! ## Several qudits jointly -/

/-- The weights of the columns of a basis, as chance takes them. -/
def columnWeights (d n : Nat) (basis : Operator R) (targets : List Nat) (state : StateVector R) :
    List S :=
  (List.range basis.columns).map fun j => chanceWeight (branchOfColumn d n basis targets state j)

omit [Rounding S R] in
/-- What is sampled from the weights of the columns is the number of one. -/
theorem lt_of_columnWeights {n column : Nat} {basis : Operator R} {targets : List Nat} {u : S}
    (h : sampleIndex (columnWeights d n basis targets state : List S) u = .ok column) :
    column < basis.columns := by
  simpa [columnWeights] using lt_of_sampleIndex h

/-- What is left of a state when a column of a basis was found. -/
def remainingOfColumn (S : Type) [Scalar S] [Rounding S R] [Rounding R S] (d n : Nat)
    (basis : Operator R) (targets : List Nat) (state : StateVector R) (column : Nat) :
    StateVector R :=
  normalizedBranch (branchOfColumn d n basis targets state column)
    (chanceWeight (branchOfColumn d n basis targets state column) : S)

/-- Measuring several positions of a register jointly samples a column of the basis and checks the
state that remains. -/
theorem run_measure (checking : Bool) (hd : 2 ≤ d) (hsize : state.size = d ^ m) {basis : Operator R}
    {targets : List Int} (htargets : TargetList m targets)
    (hbasis : basis.shape = [d ^ targets.length, d ^ targets.length])
    (draws : Draws S) :
    (measure (S := S) checking state basis (targets.map .int) (.nat d)).run.run draws =
      match sampleIndex (columnWeights d m basis (targets.map Int.toNat) state) draws.current with
      | .ok j =>
        match (remainingOfColumn S d m basis (targets.map Int.toNat) state j).checked checking with
        | .ok _ =>
          (.ok ⟨j, columnWeights d m basis (targets.map Int.toNat) state,
            (List.range basis.columns).map
              (remainingOfColumn S d m basis (targets.map Int.toNat) state)⟩, draws.advance)
        | .error fault => (.error fault, draws.advance)
      | .error fault => (.error fault, draws) := by
  have hcheck : checkBasis basis targets.length (.nat d) = .ok () := by
    have hrank : basis.rank = 2 := by simp [Tensor.rank, hbasis]
    have hrows : basis.rows = d ^ targets.length := by simp [Tensor.rows, hbasis]
    unfold checkBasis
    rw [show Argument.nat d = .int d from rfl, sizeOf_int, hrank, hrows]
    simp [bind, Except.bind, pure, Except.pure]
  -- The lists of weights and of normalized branches are read as functions of the column.
  have hweights (f : Nat → StateVector R) : ((List.range basis.columns).map f).map chanceWeight =
      ((List.range basis.columns).map fun j => chanceWeight (f j) : List S) := List.map_map
  have hstates (f : Nat → StateVector R) :
      ((List.range basis.columns).map f).zipWith normalizedBranch
          ((List.range basis.columns).map fun j => (chanceWeight (f j) : S)) =
        (List.range basis.columns).map fun j =>
          normalizedBranch (f j) (chanceWeight (f j) : S) := by
    rw [List.zipWith_map, List.zipWith_self]
  unfold measure
  rw [hsize, quditCount_pow hd, isEmpty_map_int htargets.ne_nil, List.length_map, hcheck]
  simp only [Sampling.lift_ok_bind, checkPositions_int_eq_ok htargets.inRange htargets.nodup,
    extentOf_nat, placesOf_map_int, hweights, hstates]
  show (sample (columnWeights d m basis (targets.map Int.toNat) state) >>= fun j => do
    let _ ← (liftM ((((List.range basis.columns).map
      (remainingOfColumn S d m basis (targets.map Int.toNat) state)).getD j #[]).checked checking) :
        Sampling S _)
    return (⟨j, columnWeights d m basis (targets.map Int.toNat) state,
      (List.range basis.columns).map
        (remainingOfColumn S d m basis (targets.map Int.toNat) state)⟩ :
          JointCollapse S R)).run.run draws = _
  rw [Sampling.run_bind, run_sample]
  cases h : sampleIndex (columnWeights d m basis (targets.map Int.toNat) state) draws.current with
  | error fault => rfl
  | ok j =>
    have hj := lt_of_columnWeights h
    dsimp only
    rw [Sampling.run_bind, Sampling.run_lift, getD_map_range _ hj]
    cases (remainingOfColumn S d m basis (targets.map Int.toNat) state j).checked checking <;> rfl

/-! ## Smaller states -/

/-- Measuring one position leaves a state that is smaller by the dimension. -/
theorem size_measureOne {p : Nat} {draws draws' : Draws S} {found : Collapse S R}
    (h : (measureOne d p state).run.run draws = (.ok found, draws')) :
    found.state.size * d ≤ state.size := by
  rw [run_measureOne] at h
  split at h
  · cases h
    show ((slice d p _ state).divRoot (chanceWeight (slice d p _ state) : S)).size * d ≤ _
    rw [size_divRoot, slice, size_build]
    exact Nat.div_mul_le_self _ _
  · cases h

/-- Measuring positions one after the other leaves a state that is smaller by that power of the
dimension. -/
theorem size_measureEach {targets : List Nat} {product : S} {draws draws' : Draws S}
    {found : List Nat × S × StateVector R}
    (h : (measureEach d targets state product).run.run draws = (.ok found, draws')) :
    found.2.2.size * d ^ targets.length ≤ state.size := by
  -- the positions above a measured one move down, so the induction is on their number only
  induction hlength : targets.length generalizing targets state product draws found with
  | zero =>
    obtain rfl := List.length_eq_zero_iff.mp hlength
    unfold measureEach at h
    cases h
    exact Nat.le_of_eq (Nat.mul_one _)
  | succ k ih =>
    cases targets with
    | nil => cases hlength
    | cons p ps =>
      unfold measureEach at h
      obtain ⟨first, draws₁, hfirst, h⟩ := Sampling.run_bind_eq_ok.mp h
      obtain ⟨⟨outcomes, total, rest⟩, draws₂, hrest, h⟩ := Sampling.run_bind_eq_ok.mp h
      cases h
      have hone := size_measureOne hfirst
      have hmore := ih hrest (by rw [closeGap, List.length_map]; exact Nat.succ.inj hlength)
      calc rest.size * d ^ (k + 1) = rest.size * d ^ k * d := by rw [Nat.pow_succ, Nat.mul_assoc]
        _ ≤ first.state.size * d := Nat.mul_le_mul_right _ hmore
        _ ≤ state.size := hone

/-- A state that is smaller by a power of the dimension is smaller. -/
theorem lt_of_mul_pow_le {d k small large : Nat} (hd : 2 ≤ d) (hk : k ≠ 0) (hpos : 0 < large)
    (h : small * d ^ k ≤ large) : small < large := by
  rcases Nat.eq_zero_or_pos small with rfl | hsmall
  · exact hpos
  · have hpow : 1 < d ^ k := Nat.one_lt_pow hk hd
    have hlt : small * 1 < small * d ^ k := Nat.mul_lt_mul_of_pos_left hpow hsmall
    omega

/-- Measuring positions one after the other leaves a smaller state. -/
theorem size_measureSequential (hd : 2 ≤ d) {targets : List Int} {draws draws' : Draws S}
    {found : List Nat × S × StateVector R}
    (h : (measureSequential checking state (targets.map .int) (.nat d)).run.run draws =
      (.ok found, draws')) :
    targets ≠ [] ∧ found.2.2.size < state.size := by
  unfold measureSequential at h
  obtain ⟨n, draws₁, hlift, h⟩ := Sampling.run_bind_eq_ok.mp h
  have hcount := (Sampling.run_lift_eq_ok.mp hlift).1
  by_cases hne : targets = []
  · rw [hne] at h
    cases h
  · refine ⟨hne, ?_⟩
    rw [if_neg (by rw [isEmpty_map_int hne]; exact Bool.false_ne_true)] at h
    obtain ⟨-, draws₂, -, h⟩ := Sampling.run_bind_eq_ok.mp h
    simp only [extentOf_nat, leadingPlaces_map_int, Sampling.lift_ok_bind, List.length_map,
      Nat.lt_irrefl, if_false] at h
    obtain ⟨⟨outcomes, product, rest⟩, draws₃, hrest, h⟩ := Sampling.run_bind_eq_ok.mp h
    obtain ⟨rest', draws₄, hlast, h⟩ := Sampling.run_bind_eq_ok.mp h
    have hsame := (Sampling.run_lift_eq_ok.mp hlast).1
    cases h
    have hsize := size_measureEach hrest
    rw [List.length_map] at hsize
    obtain rfl : rest' = rest := by
      rcases checked_cases checking rest with hok | ⟨fault, hfault, -⟩
      · exact Except.ok.inj (hsame.symm.trans hok)
      · rw [hfault] at hsame
        cases hsame
    refine lt_of_mul_pow_le hd (List.length_eq_zero_iff.not.mpr hne) ?_ hsize
    rw [size_of_quditCount hcount]
    exact Nat.pow_pos (by omega)

omit [Scalar R] in
/-- An item of a list of states is as small as all of them are. -/
theorem size_getD_le {states : List (StateVector R)} {bound : Nat}
    (h : ∀ item ∈ states, Array.size item ≤ bound) (i : Nat) :
    (states.getD i #[]).size ≤ bound := by
  rw [List.getD_eq_getElem?_getD]
  cases hget : states[i]? with
  | none => exact Nat.zero_le _
  | some item => exact h item (List.mem_of_getElem? hget)

/-- Measuring positions jointly leaves a smaller state. -/
theorem size_measure (hd : 2 ≤ d) {basis : Operator R} {targets : List Int}
    {draws draws' : Draws S} {found : JointCollapse S R}
    (h : (measure checking state basis (targets.map .int) (.nat d)).run.run draws =
      (.ok found, draws')) :
    targets ≠ [] ∧ (found.states.getD found.outcome #[]).size < state.size := by
  unfold measure at h
  obtain ⟨n, draws₁, hlift, h⟩ := Sampling.run_bind_eq_ok.mp h
  have hcount := (Sampling.run_lift_eq_ok.mp hlift).1
  by_cases hne : targets = []
  · rw [hne] at h
    cases h
  · refine ⟨hne, ?_⟩
    rw [if_neg (by rw [isEmpty_map_int hne]; exact Bool.false_ne_true)] at h
    obtain ⟨_, draws₂, hpositions, h⟩ := Sampling.run_bind_eq_ok.mp h
    obtain ⟨-, draws₃, -, h⟩ := Sampling.run_bind_eq_ok.mp h
    simp only [extentOf_nat, placesOf_map_int, Sampling.lift_ok_bind] at h
    obtain ⟨j, draws₄, -, h⟩ := Sampling.run_bind_eq_ok.mp h
    obtain ⟨-, draws₅, -, h⟩ := Sampling.run_bind_eq_ok.mp h
    cases h
    have hrange := inRange_of_checkPositions (Sampling.run_lift_eq_ok.mp hpositions).1
    obtain ⟨t, ht⟩ := List.exists_mem_of_ne_nil targets hne
    -- there is a target, and it is one of the qudits, so fewer are left
    have hn : n - (targets.map Int.toNat).length < n := by
      have hlt := (hrange t ht).toNat_lt
      have hlength := List.length_pos_of_mem ht
      rw [List.length_map]
      omega
    have hpower : d ^ (n - (targets.map Int.toNat).length) < state.size := by
      rw [size_of_quditCount hcount]
      exact Nat.pow_lt_pow_right hd hn
    refine Nat.lt_of_le_of_lt (size_getD_le (fun branch hbranch => ?_) _) hpower
    rw [List.zipWith_map, List.zipWith_map_right, List.zipWith_self] at hbranch
    obtain ⟨column, -, rfl⟩ := List.mem_map.mp hbranch
    exact Nat.le_of_eq ((size_normalizedBranch _ _).trans (size_branchOfColumn _ _ _))

end StateVector

@[simp] theorem Tensor.shape_round {S R : Type} [Rounding S R] (op : Operator S) :
    (Rounding.round op : Operator R).shape = op.shape := rfl

/-! ## Noise -/

namespace Trajectory

variable {S R : Type} [Scalar S] [Scalar R] [Rounding S R] [Rounding R S] {d m : Nat}
  {state : StateVector R}

/-- The vectors that the operators of a channel make of a state at a position. -/
def branchesOf (model : Trajectory S) (d p : Nat) (state : StateVector R) :
    List (StateVector R) :=
  model.channel.ops.map fun op => StateVector.branchOn d (Rounding.round op) p state

/-- However a channel is applied, it stays the same channel. -/
theorem channel_of_apply {model model' : Trajectory S} {position : Argument}
    {state' : StateVector R} {draws draws' : Draws S}
    (h : (model.apply state position).run.run draws = (.ok (model', state'), draws')) :
    model'.channel = model.channel := by
  unfold apply at h
  dsimp only at h
  rw [Sampling.run_bind, Sampling.run_lift] at h
  cases hbranches : state.branches
      (model.channel.ops.map fun op => (Rounding.round op : Operator R)) position
      (.nat model.channel.dim) with
  | error fault =>
    rw [hbranches] at h
    cases h
  | ok branches =>
    rw [hbranches] at h
    dsimp only at h
    rw [Sampling.run_bind, run_sample] at h
    cases hbranch : sampleIndex (branches.map StateVector.chanceWeight : List S) draws.current with
    | error fault =>
      rw [hbranch] at h
      cases h
    | ok branch =>
      rw [hbranch] at h
      cases h
      rfl

/-- Applying a channel to a qudit of the register samples a branch from the weights of the
branches. -/
theorem run_apply {model : Trajectory S} (hd : 2 ≤ d) (hsize : state.size = d ^ m)
    (hdim : model.channel.dim = d) (hops : ∀ op ∈ model.channel.ops, op.shape = [d, d]) {p : Nat}
    (hp : p < m) (draws : Draws S) :
    (model.apply state (.nat p)).run.run draws =
      let branches := model.branchesOf d p state
      let weights : List S := branches.map StateVector.chanceWeight
      match sampleIndex weights draws.current with
      | .ok branch =>
        (.ok ({ model with lastBranch := branch, lastWeights := weights },
          (branches.getD branch #[]).divRoot (weights.getD branch 0)), draws.advance)
      | .error fault => (.error fault, draws) := by
  have hshape : ∀ op ∈ model.channel.ops.map fun op => (Rounding.round op : Operator R),
      op.shape = [d, d] := by
    intro op hop
    obtain ⟨known, hknown, rfl⟩ := List.mem_map.mp hop
    exact hops known hknown
  unfold apply
  rw [hdim]
  dsimp only
  have hbranches : (model.channel.ops.map fun op => (Rounding.round op : Operator R)).map
      (fun op => StateVector.branchOn d op p state) = model.branchesOf d p state := List.map_map
  rw [StateVector.branches_eq hd hsize hp hshape, Sampling.lift_ok_bind, hbranches,
    Sampling.run_bind, run_sample]
  cases sampleIndex ((model.branchesOf d p state).map StateVector.chanceWeight : List S)
    draws.current <;> rfl

/-- A channel with operators leaves a state of the same register, or the weights of its branches
cannot be sampled. -/
theorem apply_cases {model : Trajectory S} (hd : 2 ≤ d) (hsize : state.size = d ^ m)
    (hdim : model.channel.dim = d) (hne : model.channel.ops ≠ [])
    (hops : ∀ op ∈ model.channel.ops, op.shape = [d, d]) {p : Nat} (hp : p < m)
    (draws : Draws S) :
    (∃ model' state', (model.apply state (.nat p)).run.run draws =
        (.ok (model', state'), draws.advance) ∧ model'.channel = model.channel ∧
          state'.size = d ^ m) ∨
      ∃ fault, (model.apply state (.nat p)).run.run draws = (.error fault, draws) ∧
        fault.IsNumeric := by
  rw [run_apply hd hsize hdim hops hp]
  dsimp only
  cases hbranch : sampleIndex
    ((model.branchesOf d p state).map StateVector.chanceWeight : List S) draws.current with
  | error fault =>
    refine .inr ⟨fault, rfl, isNumeric_of_sampleIndex ?_ hbranch⟩
    simpa [branchesOf] using hne
  | ok branch =>
    refine .inl ⟨_, _, rfl, rfl, ?_⟩
    have hlt : branch < (model.branchesOf d p state).length := by
      simpa using lt_of_sampleIndex hbranch
    rw [StateVector.size_divRoot, List.getD_eq_getElem?_getD, List.getElem?_eq_getElem hlt]
    simp [branchesOf, StateVector.branchOn, hsize]

end Trajectory

end QuditSim
