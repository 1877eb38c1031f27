import QuditSim.Proofs.Measurement.Sequential
import QuditSim.Proofs.State.Applied

/-!
# Joint measurements

Measuring positions jointly in a basis is reading a number off their digits after the adjoint of the
basis acted on them: a column is found with the weight of the amplitudes whose digits spell its number,
and these amplitudes are the state that is left.

- `StateVector.ReadAs` says what is read for one number.
- `StateVector.readAs_column` is the branch of one column, and `StateVector.readAs_of_run_measure` the
  measurement, which returns as `StateVector.exists_run_measure_iff` says.
- `StateVector.branchOfColumn_identity`: the columns of the identity are the slices for the digits of one
  position, so `StateVector.measure_identity` is the measurement of this position.
-/

open Finset

namespace QuditSim

open Layout

namespace StateVector

variable {d n : ℕ}

/-- The number that the digits at positions spell, the first one most significant. -/
def spelledAt (d : ℕ) (targets : List ℕ) (x : ℕ) : ℕ :=
  ∑ i : Fin targets.length, digit d (targets.get i) x * d ^ (targets.length - 1 - i)

theorem spelledAt_eq_readDigits (targets : List ℕ) (x : ℕ) :
    spelledAt d targets x = readDigits d targets x := (readDigits_eq_sum targets x).symm

/-- What is read off amplitudes for a number that the digits at positions can spell: the weight of the
amplitudes whose digits spell it, and the state that has these amplitudes, divided by the root of the
weight. Without weight, it is the zero vector. -/
structure ReadAs (d n : ℕ) (phi : StateVector ℝ) (targets : List ℕ) (i : ℕ) (weight : ℝ)
    (rest : StateVector ℝ) : Prop where
  /-- The weight is that of the amplitudes whose digits spell the number. -/
  weight_eq : weight = ∑ x ∈ range (d ^ n) with spelledAt d targets x = i,
    Complex.normSq (phi.amplitude x).toComplex
  /-- The measured qudits have left. -/
  size_eq : rest.size = d ^ (n - targets.length)
  /-- The amplitudes are those whose digits spell the number, divided by the root of the weight. -/
  amplitude_eq : weight ≠ 0 → ∀ y < d ^ (n - targets.length), ∃ x, Extends d n targets y x ∧
    spelledAt d targets x = i ∧
      (rest.amplitude y).toComplex = (phi.amplitude x).toComplex / (√weight : ℝ)
  /-- Without weight, all amplitudes are zero. -/
  amplitude_eq_zero : weight = 0 → ∀ y < d ^ (n - targets.length), rest.amplitude y = 0

section Columns

variable {basis : Operator ℝ} {targets : List ℕ} {state : StateVector ℝ}
  (hd : 2 ≤ d) (hsize : state.size = d ^ n) (htargets : targets ≠ []) (hnodup : targets.Nodup)
  (hrange : ∀ q ∈ targets, q < n) (hbasis : basis.shape = [d ^ targets.length, d ^ targets.length])

omit htargets hnodup hrange in
include hd hsize hbasis in
/-- The amplitudes after the adjoint of a basis acted. -/
theorem toComplex_applyOn_adjoint {x : ℕ} (hx : x < d ^ n) :
    ((applyOn d basis.adjoint targets state).amplitude x).toComplex =
      FullRun.actOn d (fun i b => (starRingEnd ℂ) (basis.entry b i).toComplex) targets
        (fun x => (state.amplitude x).toComplex) x := by
  have hpos : 0 < d := by omega
  rw [applyOn, amplitude_build _ (hsize ▸ hx), Tensor.toComplex_inner]
  refine sum_congr rfl fun b hb => ?_
  rw [Operator.toComplex_entry_adjoint hbasis (readDigits_lt hpos targets x) (mem_range.mp hb)]

include hd hsize htargets hnodup hrange hbasis

/-- The weight of a column is that of the amplitudes whose digits spell its number, after the adjoint of
the basis acted. -/
theorem columnWeights_eq_readDigits :
    (columnWeights d n basis targets state : List ℝ) =
      (List.range (d ^ targets.length)).map fun i =>
        ∑ x ∈ range (d ^ n) with spelledAt d targets x = i,
          Complex.normSq ((applyOn d basis.adjoint targets state).amplitude x).toComplex := by
  have hpos : 0 < d := by omega
  have hweights := columnWeights_eq hpos hsize (targetList_natCast htargets hnodup hrange)
    (by rwa [List.length_map])
  simp only [map_toNat_natCast] at hweights
  rw [hweights]
  refine List.map_congr_left fun i _ => ?_
  unfold FullRun.weight
  rw [sum_filter]
  refine sum_congr rfl fun x hx => ?_
  rw [toComplex_applyOn_adjoint hd hsize hbasis (mem_range.mp hx), spelledAt_eq_readDigits]

/-- The branch of a column has the amplitudes whose digits spell its number, after the adjoint of the
basis acted. -/
theorem exists_branchOfColumn {i : ℕ} (hi : i < d ^ targets.length) {y : ℕ}
    (hy : y < d ^ (n - targets.length)) :
    ∃ x, Extends d n targets y x ∧ spelledAt d targets x = i ∧
      ((branchOfColumn d n basis targets state i).amplitude y).toComplex =
        ((applyOn d basis.adjoint targets state).amplitude x).toComplex := by
  have hpos : 0 < d := by omega
  have hlist := targetList_natCast htargets hnodup hrange
  have hnone : Findings d n [] := .nil d n
  -- the index is the one at which a whole register has the digits of the number, when they are found
  have hlive : ∀ t ∈ targets.map fun q : ℕ => (q : Int), t ∉ ([] : List (Int × ℕ)).map Prod.fst :=
    fun _ _ => List.not_mem_nil
  have hcast : i < d ^ (targets.map fun q : ℕ => (q : Int)).length := by rwa [List.length_map]
  have hfound := hnone.append_spelled hpos hlist hlive i
  have hkeys : ([] ++ spelled d (targets.map fun q : ℕ => (q : Int)) i).map Prod.fst =
      targets.map fun q : ℕ => (q : Int) := keys_spelled _ i
  have hbranch := ((Restricts.self hpos hsize).branchOfColumn hpos hnone hlist hlive hcast basis).2 y
    (by rwa [List.map_nil, List.nil_append, place_targets hlist])
  have hread := readDigits_fullIndex_spelled hpos hnone hlist hlive hcast y
  -- the positions are those of the whole register, since nothing was measured before
  simp only [List.map_nil, place_nil, List.map_map, Function.comp_def, Int.toNat_natCast,
    List.map_id'] at hbranch hread
  have hextends := extends_fullIndex hpos hfound hkeys y
  refine ⟨_, hextends, (spelledAt_eq_readDigits targets _).trans hread, ?_⟩
  rw [hbranch, toComplex_applyOn_adjoint hd hsize hbasis hextends.lt]

/-- What is left for a column is read off the amplitudes after the adjoint of the basis acted. -/
theorem readAs_column {i : ℕ} (hi : i < d ^ targets.length) :
    ReadAs d n (applyOn d basis.adjoint targets state) targets i
      (chanceWeight (branchOfColumn d n basis targets state i))
      (remainingOfColumn ℝ d n basis targets state i) where
  weight_eq := by
    have hweights := columnWeights_eq_readDigits hd hsize htargets hnodup hrange hbasis
    have hcolumns := Tensor.columns_of_shape hbasis
    have hitem := congrArg (fun weights : List ℝ => weights.getD i 0) hweights
    rwa [columnWeights, hcolumns, getD_map_range _ hi, getD_map_range _ hi] at hitem
  size_eq := by rw [remainingOfColumn, size_normalizedBranch, size_branchOfColumn]
  amplitude_eq hweight y hy := by
    obtain ⟨x, hextends, hspelled, hamplitude⟩ :=
      exists_branchOfColumn hd hsize htargets hnodup hrange hbasis hi hy
    refine ⟨x, hextends, hspelled, ?_⟩
    rw [remainingOfColumn, normalizedBranch, if_pos (lt_of_le_of_ne (chanceWeight_nonneg _) hweight.symm),
      amplitude_divRoot_real, hamplitude]
  amplitude_eq_zero hweight y hy := by
    rw [remainingOfColumn, normalizedBranch, if_neg hweight.le.not_gt]
    exact amplitude_build _ (by rwa [size_branchOfColumn])

/-- The amplitudes have the weights of the columns together, after the adjoint of the basis acted. -/
theorem sum_columnWeights_eq :
    (columnWeights d n basis targets state : List ℝ).sum = ∑ x ∈ range (d ^ n),
      Complex.normSq ((applyOn d basis.adjoint targets state).amplitude x).toComplex := by
  have hpos : 0 < d := by omega
  have hmaps : ∀ x ∈ range (d ^ n), spelledAt d targets x ∈ range (d ^ targets.length) := by
    intro x _
    rw [mem_range, spelledAt_eq_readDigits]
    exact readDigits_lt hpos targets x
  rw [columnWeights_eq_readDigits hd hsize htargets hnodup hrange hbasis,
    ← sum_fiberwise_of_maps_to hmaps]
  rfl

/-- The columns of a unitary basis have the weight of the state together. -/
theorem sum_columnWeights_targets (hunitary : basis.Unitary) :
    (columnWeights d n basis targets state : List ℝ).sum = chanceWeight state := by
  have hsum := sum_columnWeights hd hsize (targetList_natCast htargets hnodup hrange)
    (by rwa [List.length_map]) hunitary
  rwa [map_toNat_natCast] at hsum

/-- A joint measurement samples a column. What remains for it has weight one, so it is not refused. -/
theorem run_measure_targets (checking : Bool) (draws : Draws ℝ) :
    (measure (S := ℝ) checking state basis (targets.map .nat) (.nat d)).run.run draws =
      match sampleIndex (columnWeights d n basis targets state) draws.current with
      | .ok column =>
        (.ok ⟨column, columnWeights d n basis targets state,
          (List.range (d ^ targets.length)).map (remainingOfColumn ℝ d n basis targets state)⟩,
          draws.advance)
      | .error fault => (.error fault, draws) := by
  have hcolumns := Tensor.columns_of_shape hbasis
  rw [← map_int_natCast, run_measure checking hd hsize (targetList_natCast htargets hnodup hrange)
    (by rwa [List.length_map]), map_toNat_natCast, hcolumns]
  cases hsample : sampleIndex (columnWeights d n basis targets state : List ℝ) draws.current with
  | error fault => rfl
  | ok column =>
    obtain ⟨-, hpos⟩ := drawn_of_sampleIndex hsample
    have hone : (chanceWeight (remainingOfColumn ℝ d n basis targets state column) : ℝ) = 1 := by
      rw [remainingOfColumn, normalizedBranch, if_pos hpos]
      exact chanceWeight_divRoot hpos
    dsimp only
    rw [checked_of_weight checking hone]

/-- A joint measurement returns for amplitudes that have a weight after the adjoint of the basis acted,
and for no others. -/
theorem exists_run_measure_iff (checking : Bool) (draws : Draws ℝ) :
    (∃ found draws', (measure (S := ℝ) checking state basis (targets.map .nat) (.nat d)).run.run draws =
        (.ok found, draws')) ↔
      ∑ x ∈ range (d ^ n),
        Complex.normSq ((applyOn d basis.adjoint targets state).amplitude x).toComplex ≠ 0 := by
  have hnonneg : ∀ weight ∈ (columnWeights d n basis targets state : List ℝ), 0 ≤ weight := by
    intro weight hweight
    obtain ⟨column, -, rfl⟩ := List.mem_map.mp hweight
    exact chanceWeight_nonneg _
  rw [← sum_columnWeights_eq hd hsize htargets hnodup hrange hbasis,
    ← exists_sampleIndex_iff hnonneg draws.current,
    run_measure_targets hd hsize htargets hnodup hrange hbasis]
  cases sampleIndex (columnWeights d n basis targets state : List ℝ) draws.current with
  | error fault => exact iff_of_false (fun ⟨_, _, h⟩ => nomatch h) fun ⟨_, h⟩ => nomatch h
  | ok column => exact iff_of_true ⟨_, _, rfl⟩ ⟨_, rfl⟩

/-- What a joint measurement returns for a number is read off the amplitudes after the adjoint of the
basis acted. -/
theorem readAs_of_run_measure {checking : Bool} {draws draws' : Draws ℝ} {found : JointCollapse ℝ ℝ}
    (h : (measure (S := ℝ) checking state basis (targets.map .nat) (.nat d)).run.run draws =
      (.ok found, draws')) :
    found.weights = columnWeights d n basis targets state ∧ found.states.length = d ^ targets.length ∧
      ∀ i < d ^ targets.length, ∃ weight rest, found.weights[i]? = some weight ∧
        found.states[i]? = some rest ∧
          ReadAs d n (applyOn d basis.adjoint targets state) targets i weight rest := by
  rw [run_measure_targets hd hsize htargets hnodup hrange hbasis] at h
  cases hsample : sampleIndex (columnWeights d n basis targets state : List ℝ) draws.current with
  | error fault =>
    rw [hsample] at h
    cases h
  | ok column =>
    rw [hsample] at h
    cases h
    have hcolumns := Tensor.columns_of_shape hbasis
    refine ⟨rfl, by rw [List.length_map, List.length_range], fun i hi => ⟨_, _, ?_, ?_,
      readAs_column hd hsize htargets hnodup hrange hbasis hi⟩⟩
    · simp [columnWeights, hcolumns, hi]
    · simp [hi]

end Columns

/-! ## The identity as basis -/

section Identity

variable {state : StateVector ℝ} {p : ℕ}

/-- Among the positions of a register, one alone is in ascending order. -/
theorem ascending_singleton (hp : p < n) : ascending n [p] = [p] := by
  have hlength : (ascending n [p]).length = 1 :=
    length_ascending (List.forall_mem_singleton.mpr hp) (List.nodup_singleton p)
  obtain ⟨q, hq⟩ := List.length_eq_one_iff.mp hlength
  have hmem : p ∈ ascending n [p] := mem_ascending.mpr ⟨hp, List.mem_singleton_self p⟩
  rw [hq, List.mem_singleton] at hmem
  rw [hq, hmem]

variable (hd : 0 < d) (hsize : state.size = d ^ n) (hp : p < n)

include hd hsize hp

/-- The branch of a column of the identity is the slice for its number. -/
theorem branchOfColumn_identity {v : ℕ} (hv : v < d) :
    branchOfColumn d n (Tensor.identity d) [p] state v = slice d p v state := by
  have hsizes : d ^ (n - [p].length) = state.size / d := by
    rw [hsize, List.length_singleton, ← Nat.pow_pred_mul (x := d) (Nat.zero_lt_of_lt hp),
      Nat.mul_div_cancel _ hd]
  have hbranch : (branchOfColumn d n (Tensor.identity d) [p] state v).size = d ^ (n - [p].length) :=
    size_branchOfColumn _ _ _
  refine ext_amplitude (by rw [hbranch, hsizes, slice, size_build]) fun y hy => ?_
  rw [hbranch] at hy
  apply Amplitude.toComplex_injective
  rw [slice, amplitude_build _ (hsizes ▸ hy), branchOfColumn, amplitude_build _ hy,
    ascending_singleton hp, Tensor.toComplex_inner, List.length_singleton, pow_one]
  -- only the row of the column has an entry, and its digit is put into the room
  rw [sum_eq_single_of_mem v (mem_range.mpr hv)]
  · have hplace : placeDigits d [p] v (makeRoom d [p] y) = insertDigit d p v y := by
      rw [placeDigits_cons, placeDigits_nil, List.length_nil, pow_zero, Nat.div_one,
        Nat.mod_eq_of_lt hv, replaceDigit_eq_insertDigit hd]
      exact congrArg (insertDigit d p v) (removeDigit_insertDigit p y hd)
    rw [hplace, Amplitude.toComplex_conj, Operator.toComplex_entry_identity hv hv, if_pos rfl, map_one,
      one_mul]
  · intro b hb hne
    rw [Amplitude.toComplex_conj, Operator.toComplex_entry_identity (mem_range.mp hb) hv, if_neg hne,
      map_zero, zero_mul]

/-- The columns of the identity have the weights of the digits. -/
theorem columnWeights_identity :
    (columnWeights d n (Tensor.identity d) [p] state : List ℝ) = digitWeights d p state := by
  refine List.map_congr_left fun v hv => ?_
  rw [branchOfColumn_identity hd hsize hp (List.mem_range.mp hv)]

/-- For a digit of positive weight, what is left for its column of the identity is what is left for
the digit. -/
theorem remainingOfColumn_identity {v : ℕ} (hv : v < d)
    (hpos : 0 < (chanceWeight (slice d p v state) : ℝ)) :
    remainingOfColumn ℝ d n (Tensor.identity d) [p] state v = remaining ℝ d p v state := by
  rw [remainingOfColumn, branchOfColumn_identity hd hsize hp hv, normalizedBranch, if_pos hpos,
    remaining]

end Identity

/-- What a joint measurement found, as it is found for one position. -/
def JointCollapse.asSequential (found : JointCollapse ℝ ℝ) : List ℕ × ℝ × StateVector ℝ :=
  ([found.outcome], found.weights.getD found.outcome 0, found.states.getD found.outcome #[])

/-- In the identity as basis, a position of a register is measured as its digit is. -/
theorem run_measure_identity (hd : 2 ≤ d) (checking : Bool) (hsize : state.size = d ^ n)
    (hp : p < n) (draws : Draws ℝ) :
    (JointCollapse.asSequential <$>
        measure (S := ℝ) checking state (Tensor.identity d) [.nat p] (.nat d)).run.run draws =
      (measureSequential checking state [.nat p] (.nat d)).run.run draws := by
  have hpos : 0 < d := by omega
  have hrange : InRange n (p : Int) := ⟨Int.natCast_nonneg p, Int.ofNat_lt.mpr hp⟩
  have hshape : (Tensor.identity d : Operator ℝ).shape = [d ^ [p].length, d ^ [p].length] := by
    rw [List.length_singleton, pow_one]
    rfl
  have hjoint := run_measure_targets hd hsize (List.cons_ne_nil p []) (List.nodup_singleton p)
    (List.forall_mem_singleton.mpr hp) hshape checking draws
  -- both draw from the weights of the digits, so it is the same one that they find
  rw [columnWeights_identity hpos hsize hp, List.length_singleton, pow_one] at hjoint
  have hsequential : (measureSequential checking state [.nat p] (.nat d)).run.run draws = _ :=
    run_measureSequential checking hd hsize hrange draws
  rw [Int.toNat_natCast] at hsequential
  rw [map_eq_pure_bind, Sampling.run_bind, hsequential]
  rw [List.map_singleton] at hjoint
  rw [hjoint]
  cases hsample : sampleIndex (digitWeights d p state : List ℝ) draws.current with
  | error fault => rfl
  | ok v =>
    obtain ⟨hv, hweight⟩ := drawn_of_sampleIndex hsample
    have hchecked := checked_of_weight checking (chanceWeight_divRoot hweight)
    dsimp only
    rw [remaining, hchecked, one_mul]
    unfold JointCollapse.asSequential
    dsimp only
    rw [digitWeights, getD_map_range _ hv, getD_map_range _ hv,
      remainingOfColumn_identity hpos hsize hp hv hweight]
    rfl

/-- In the identity as basis, a position is measured as its digit is, whatever the state and the
position are. -/
theorem measure_identity (hd : 2 ≤ d) (checking : Bool) (state : StateVector ℝ) (p : Int) :
    JointCollapse.asSequential <$>
        measure (S := ℝ) checking state (Tensor.identity d) [.int p] (.nat d) =
      measureSequential checking state [.int p] (.nat d) := by
  -- what refuses the state or the position comes before either of them looks at amplitudes
  cases hcount : quditCount state.size (.nat d) with
  | error fault =>
    unfold measure measureSequential
    rw [hcount]
    rfl
  | ok n =>
    cases hcheck : checkPositions "target" [.int p] n with
    | error fault =>
      unfold measure measureSequential
      rw [hcount]
      simp only [Sampling.lift_ok_bind, hcheck]
      rfl
    | ok u =>
      have hall : ∀ t ∈ [p], InRange n t := inRange_of_checkPositions hcheck
      have hrange : InRange n p := hall p (List.mem_singleton_self p)
      rw [← hrange.toNat_eq]
      funext draws
      exact run_measure_identity hd checking (size_of_quditCount hcount) hrange.toNat_lt draws

end StateVector

end QuditSim
