import QuditSim.Proofs.State.Counting
import QuditSim.Proofs.State.Measure

/-!
# Operations that do not end

Every operation on states counts the qudits first, and the count is the only part of it that may go
on for ever: whatever else an operation does goes through lists. So an operation ends just if the
count of its state does, whichever the operators, the positions and the numbers to be drawn are.

- `StateVector.bind_eq_endless_iff` and `Sampling.lift_bind_eq_endless_iff` leave only the first
  stage to be looked at.
- `StateVector.apply_eq_endless_iff` and those that follow it do so for the five operations on
  states.
- `StateVector.counting_exact`: what counting answers for every length and every integer as
  dimension (`StateVector.CountsExactly`), and when the operations end
  (`StateVector.EndsWithCount`).
-/

namespace QuditSim

open Fallible

namespace StateVector

/-! ## Stages that end -/

/-- A computation ends: its answer is not that it goes on for ever. -/
def Finishes {α : Type} (x : Except StateFault α) : Prop := x ≠ .error .endless

section Stages

variable {α β : Type} {x : Except StateFault α} {f : α → Except StateFault β}

theorem finishes_ok (a : α) : Finishes (.ok a) := nofun

/-- A sequence ends if its stages do. -/
theorem Finishes.bind (hx : Finishes x) (hf : ∀ a, Finishes (f a)) : Finishes (x >>= f) := by
  intro h
  rcases bind_eq_error.mp h with hfirst | ⟨a, -, hrest⟩
  · exact hx hfirst
  · exact hf a hrest

/-- A sequence whose later stages end does so just if the first one does. -/
theorem bind_eq_endless_iff (hf : ∀ a, Finishes (f a)) :
    (x >>= f) = .error .endless ↔ x = .error .endless := by
  rw [bind_eq_error, or_iff_left]
  rintro ⟨a, -, hrest⟩
  exact hf a hrest

/-- A guard with another fault ends if what it guards does. -/
theorem Finishes.guard {p : Prop} [Decidable p] {fault : StateFault} {y : Except StateFault β}
    (hfault : fault ≠ .endless) (hy : Finishes y) :
    Finishes (if p then throw fault >>= f else y) := by
  by_cases hp : p
  · rw [if_pos hp]
    exact fun h => hfault (Except.error.inj h)
  · rwa [if_neg hp]

theorem finishes_forM {γ : Type} {items : List γ} {body : γ → Except StateFault PUnit}
    (h : ∀ item, Finishes (body item)) : Finishes (items.forM body) := by
  induction items with
  | nil => exact finishes_ok _
  | cons item items ih => exact (h item).bind fun _ => ih

theorem finishes_mapM {γ : Type} {items : List γ} {body : γ → Except StateFault α}
    (h : ∀ item, Finishes (body item)) : Finishes (items.mapM body) := by
  intro hfault
  obtain ⟨-, item, -, -, -, hitem⟩ := mapM_eq_error.mp hfault
  exact h item hitem

end Stages

section Checks

theorem finishes_checkPosition (role : String) (n : ℕ) (position : Argument) :
    Finishes (checkPosition role n position) := by
  unfold checkPosition
  split
  · nofun
  · split <;> nofun

theorem finishes_checkPositions (role : String) (positions : List Argument) (n : ℕ) :
    Finishes (checkPositions role positions n) := by
  unfold checkPositions
  refine (finishes_forM fun position => finishes_checkPosition role n position).bind fun _ => ?_
  split <;> nofun

theorem finishes_extentOf (dim : Argument) : Finishes (extentOf dim) := by
  unfold extentOf
  split
  · nofun
  · split <;> nofun

theorem finishes_sizeOf (dim : Argument) (count : ℕ) : Finishes (sizeOf dim count) := by
  unfold sizeOf
  split <;> nofun

theorem finishes_placesOf (positions : List Argument) : Finishes (placesOf positions) := by
  unfold placesOf
  split <;> nofun

variable {R : Type}

theorem finishes_checkOperator (op : Operator R) (count : ℕ) (dim : Argument) :
    Finishes (checkOperator op count dim) := by
  unfold checkOperator
  refine (finishes_sizeOf dim count).bind fun size => ?_
  split <;> nofun

theorem finishes_checkBasis (basis : Operator R) (count : ℕ) (dim : Argument) :
    Finishes (checkBasis basis count dim) := by
  unfold checkBasis
  refine (finishes_sizeOf dim count).bind fun rows => ?_
  split <;> nofun

theorem finishes_checked [Scalar R] (checking : Bool) (state : StateVector R) :
    Finishes (state.checked checking) := by
  rcases checked_cases checking state with hok | ⟨fault, hfault, -, hnorm⟩
  · rw [hok]
    exact finishes_ok _
  · rw [hfault]
    rintro ⟨⟩
    exact hnorm

end Checks

/-! ## Operations without chance -/

section Kernels

variable {R : Type} [Scalar R] (checking : Bool) (state : StateVector R) (dim : Argument)

theorem apply_eq_endless_iff (op : Operator R) (targets : List Argument) :
    state.apply checking op targets dim = .error .endless ↔
      quditCount state.size dim = .error .endless := by
  unfold apply
  -- the count is the first stage, and each check after it ends
  refine bind_eq_endless_iff fun n => .guard nofun ?_
  refine (finishes_checkPositions _ _ _).bind fun _ => ?_
  refine (finishes_checkOperator _ _ _).bind fun _ => ?_
  refine (finishes_extentOf _).bind fun _ => ?_
  exact (finishes_placesOf _).bind fun _ => finishes_checked _ _

theorem applyControlled_eq_endless_iff (op : Operator R) (controls targets : List Argument) :
    state.applyControlled checking op controls targets dim = .error .endless ↔
      quditCount state.size dim = .error .endless := by
  unfold applyControlled
  -- without controls this is the operation before, which counts by itself
  by_cases hcontrols : controls.isEmpty
  · rw [if_pos hcontrols, ← apply_eq_endless_iff checking state dim op targets]
  · rw [if_neg hcontrols]
    refine bind_eq_endless_iff fun n => .guard nofun ?_
    refine (finishes_checkPositions _ _ _).bind fun _ => ?_
    refine (finishes_checkPositions _ _ _).bind fun _ => .guard nofun ?_
    refine (finishes_checkOperator _ _ _).bind fun _ => ?_
    refine (finishes_extentOf _).bind fun _ => ?_
    refine (finishes_placesOf _).bind fun _ => ?_
    exact (finishes_placesOf _).bind fun _ => finishes_checked _ _

theorem branches_eq_endless_iff (ops : List (Operator R)) (position : Argument) :
    state.branches ops position dim = .error .endless ↔
      quditCount state.size dim = .error .endless := by
  unfold branches
  refine bind_eq_endless_iff fun n => ?_
  refine (finishes_checkPosition _ _ _).bind fun _ => ?_
  refine (finishes_extentOf _).bind fun _ => ?_
  refine (finishes_placesOf _).bind fun _ => finishes_mapM fun op => ?_
  split <;> nofun

end Kernels

end StateVector

/-! ## Operations that draw -/

namespace Sampling

open StateVector

variable {S α β : Type}

/-- A computation that draws ends, whatever numbers are drawn. -/
def AlwaysFinishes (x : Sampling S α) : Prop := ∀ draws, Finishes (x.run.run draws).1

variable {x : Sampling S α} {f : α → Sampling S β}

theorem alwaysFinishes_pure (a : α) : AlwaysFinishes (pure a : Sampling S α) :=
  fun _ => finishes_ok a

theorem alwaysFinishes_lift {x : Except StateFault α} (h : Finishes x) :
    AlwaysFinishes (liftM x : Sampling S α) := by
  intro draws
  rwa [run_lift]

theorem AlwaysFinishes.bind (hx : x.AlwaysFinishes) (hf : ∀ a, (f a).AlwaysFinishes) :
    (x >>= f).AlwaysFinishes := by
  intro draws
  have hfirst := hx draws
  rw [run_bind]
  generalize x.run.run draws = ended at hfirst
  obtain ⟨fault | a, draws'⟩ := ended
  · exact fun h => hfirst (congrArg Except.error (Except.error.inj h))
  · exact hf a draws'

/-- A guard with another fault ends if what it guards does. -/
theorem AlwaysFinishes.guard {p : Prop} [Decidable p] {fault : StateFault} {y : Sampling S β}
    (hfault : fault ≠ .endless) (hy : y.AlwaysFinishes) :
    AlwaysFinishes (if p then throw fault >>= f else y) := by
  by_cases hp : p
  · rw [if_pos hp]
    exact fun _ h => hfault (Except.error.inj h)
  · rwa [if_neg hp]

/-- A sequence that draws in its later stages, which end, does not end just if its first stage does
not. -/
theorem lift_bind_eq_endless_iff {x : Except StateFault α} (hf : ∀ a, (f a).AlwaysFinishes)
    (draws : Draws S) :
    (((liftM x : Sampling S α) >>= f).run.run draws).1 = .error .endless ↔ x = .error .endless := by
  rw [run_bind, run_lift]
  cases x with
  | error fault =>
    exact ⟨fun h => congrArg Except.error (Except.error.inj h),
      fun h => congrArg Except.error (Except.error.inj h)⟩
  | ok a => exact iff_of_false (hf a draws) nofun

theorem alwaysFinishes_sample [Scalar S] (weights : List S) : (sample weights).AlwaysFinishes := by
  intro draws
  have hindex : Finishes (sampleIndex weights draws.current) := by
    by_cases hne : weights = []
    · rw [hne]
      nofun
    · intro h
      exact isNumeric_of_sampleIndex hne h
  rw [run_sample]
  generalize sampleIndex weights draws.current = found at hindex
  cases found with
  | error fault => exact hindex
  | ok i => nofun

end Sampling

namespace StateVector

open Sampling

section Measurements

variable {S R : Type} [Scalar S] [Scalar R] [Rounding S R] [Rounding R S]

theorem alwaysFinishes_measureOne (d p : ℕ) (state : StateVector R) :
    (measureOne (S := S) d p state).AlwaysFinishes := by
  unfold measureOne
  exact (alwaysFinishes_sample _).bind fun _ => alwaysFinishes_pure _

theorem alwaysFinishes_measureEach (d : ℕ) (targets : List ℕ) (state : StateVector R) (product : S) :
    (measureEach d targets state product).AlwaysFinishes := by
  -- the positions that are left are renumbered, so the induction is on their number
  induction hlength : targets.length generalizing targets state product with
  | zero =>
    obtain rfl := List.length_eq_zero_iff.mp hlength
    unfold measureEach
    exact alwaysFinishes_pure _
  | succ k ih =>
    cases targets with
    | nil => cases hlength
    | cons p ps =>
      unfold measureEach
      refine (alwaysFinishes_measureOne d p state).bind fun found => ?_
      refine (ih _ _ _ ?_).bind fun _ => alwaysFinishes_pure _
      rw [closeGap, List.length_map]
      exact Nat.succ.inj hlength

variable (checking : Bool) (state : StateVector R) (targets : List Argument) (dim : Argument)
  (draws : Draws S)

theorem measureSequential_eq_endless_iff :
    ((measureSequential checking state targets dim).run.run draws).1 = .error .endless ↔
      quditCount state.size dim = .error .endless := by
  unfold measureSequential
  refine lift_bind_eq_endless_iff (fun n => ?_) draws
  refine .guard nofun ?_
  refine (alwaysFinishes_lift (finishes_checkPositions _ _ _)).bind fun _ => ?_
  refine (alwaysFinishes_lift (finishes_extentOf _)).bind fun d => ?_
  refine (alwaysFinishes_measureEach _ _ _ _).bind fun found => .guard nofun ?_
  exact (alwaysFinishes_lift (finishes_checked _ _)).bind fun _ => alwaysFinishes_pure _

theorem measure_eq_endless_iff (basis : Operator R) :
    ((measure checking state basis targets dim).run.run draws).1 = .error .endless ↔
      quditCount state.size dim = .error .endless := by
  unfold measure
  refine lift_bind_eq_endless_iff (fun n => ?_) draws
  refine .guard nofun ?_
  refine (alwaysFinishes_lift (finishes_checkPositions _ _ _)).bind fun _ => ?_
  refine (alwaysFinishes_lift (finishes_checkBasis _ _ _)).bind fun _ => ?_
  refine (alwaysFinishes_lift (finishes_extentOf _)).bind fun d => ?_
  refine (alwaysFinishes_lift (finishes_placesOf _)).bind fun _ => ?_
  refine (alwaysFinishes_sample _).bind fun _ => ?_
  exact (alwaysFinishes_lift (finishes_checked _ _)).bind fun _ => alwaysFinishes_pure _

end Measurements

/-! ## Lengths and dimensions -/

/-- What counting the qudits of a vector of a given length comes to, for an integer as dimension. -/
structure CountsExactly (dim : ℤ) (size : ℕ) : Prop where
  /-- The loop ends just if the length is at most one or the dimension has powers beyond one. -/
  ends_iff : (∃ found, Counts dim size 1 0 found) ↔ size ≤ 1 ∨ 2 ≤ dim.natAbs
  /-- No end of the loop is missed. -/
  endless_iff : quditCount size dim = .error .endless ↔ ¬ ∃ found, Counts dim size 1 0 found
  /-- There are `n` qudits just if the length is this power of the dimension. -/
  ok_iff : ∀ n, quditCount size dim = .ok n ↔ dim ^ n = size ∧ (n = 0 ∨ 2 ≤ dim.natAbs)
  /-- A length is refused just if the loop ends and the length is no power of the dimension. -/
  notPower_iff : quditCount size dim = .error (.notPower size dim) ↔
    size = 0 ∨ 2 ≤ dim.natAbs ∧ ∀ n, dim ^ n ≠ size

/-- The operations on a state do not end just if it has two amplitudes or more and no power of the
dimension is beyond one. -/
structure EndsWithCount (S : Type) {R : Type} [Scalar S] [Scalar R] [Rounding S R] [Rounding R S]
    (dim : ℤ) (state : StateVector R) : Prop where
  /-- An operator on positions. -/
  apply_iff : ∀ checking op targets,
    state.apply checking op targets dim = .error .endless ↔ 2 ≤ state.size ∧ dim.natAbs ≤ 1
  /-- An operator under control. -/
  applyControlled_iff : ∀ checking op controls targets,
    state.applyControlled checking op controls targets dim = .error .endless ↔
      2 ≤ state.size ∧ dim.natAbs ≤ 1
  /-- Operators side by side. -/
  branches_iff : ∀ ops position,
    state.branches ops position dim = .error .endless ↔ 2 ≤ state.size ∧ dim.natAbs ≤ 1
  /-- A measurement of one position after the other. -/
  measureSequential_iff : ∀ checking targets (draws : Draws S),
    ((state.measureSequential checking targets dim).run.run draws).1 = .error .endless ↔
      2 ≤ state.size ∧ dim.natAbs ≤ 1
  /-- A joint measurement. -/
  measure_iff : ∀ checking basis targets (draws : Draws S),
    ((state.measure checking basis targets dim).run.run draws).1 = .error .endless ↔
      2 ≤ state.size ∧ dim.natAbs ≤ 1

/-- For every vector and every integer as dimension: if the length is at most one or the dimension
has powers beyond one, counting ends, with the exponent if the length is a power of the dimension
and with a refusal if it is none; and it goes on for ever in the other cases, as each operation then
does. -/
theorem counting_exact {S R : Type} [Scalar S] [Scalar R] [Rounding S R] [Rounding R S] (dim : ℤ)
    (state : StateVector R) : CountsExactly dim state.size ∧ EndsWithCount S dim state := by
  have hendless : quditCount state.size dim = .error .endless ↔
      2 ≤ state.size ∧ dim.natAbs ≤ 1 := quditCount_eq_endless_iff
  refine ⟨⟨exists_counts_iff, ?_, fun n => quditCount_eq_ok_iff, quditCount_eq_notPower_iff⟩,
    ⟨?_, ?_, ?_, ?_, ?_⟩⟩
  · rw [hendless, exists_counts_iff]
    omega
  · exact fun checking op targets => (apply_eq_endless_iff ..).trans hendless
  · exact fun checking op controls targets => (applyControlled_eq_endless_iff ..).trans hendless
  · exact fun ops position => (branches_eq_endless_iff ..).trans hendless
  · exact fun checking targets draws => (measureSequential_eq_endless_iff ..).trans hendless
  · exact fun checking basis targets draws => (measure_eq_endless_iff ..).trans hendless

/-- Two amplitudes are no power of one, and counting them by the dimension one goes on for ever
instead of refusing them, as an operation on them does; and by the dimension minus two, four
amplitudes are counted as those of two qudits. -/
theorem counting_goes_on :
    (¬ ∃ found, Counts 1 2 1 0 found) ∧ quditCount 2 (.int 1) = .error .endless ∧
      (zero 1 2 : StateVector Float).apply false (.identity 1) [.int 0] (.int 1) = .error .endless ∧
      quditCount 4 (.int (-2)) = .ok 2 := by
  have hendless : quditCount 2 (.int 1) = .error .endless :=
    quditCount_eq_endless_iff.mpr ⟨Nat.le_refl 2, Nat.le_refl 1⟩
  have hsize : (zero 1 2 : StateVector Float).size = 2 := size_build _ _
  refine ⟨?_, hendless, ?_, rfl⟩
  · rw [exists_counts_iff]
    decide
  · rw [apply_eq_endless_iff, hsize]
    exact hendless

end StateVector

end QuditSim
