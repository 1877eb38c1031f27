import QuditSim.Proofs.Gate.Weyl
import QuditSim.Proofs.State.Applied
import QuditSim.Proofs.State.Controlled

/-!
# Digits that are shifted

The powers of the shift have one entry in each row, so of the sum that an amplitude becomes only one
amplitude remains. Applied at a position, the shift therefore moves amplitudes: the digit at the
position grows by one, or under control by the digit of the control, and starts again after the last
one.

- `StateVector.Shifted` relates the indices before and after, and `StateVector.Adds` the states.
- `StateVector.adds_shift` and `StateVector.adds_controlled_shift`: the shift adds one, and under
  control of a position the digit there.
- `StateVector.Adds.exists_basisState`: a basis state becomes the one with the sum as its digit.
-/

open Finset

namespace QuditSim

namespace StateVector

variable {d : ℕ}

/-! ## Indices -/

/-- Two indices have the same digits but at one position, where the second one has the digit of the
first one and `v` more, modulo the base. -/
def Shifted (d q v x y : ℕ) : Prop :=
  ∀ r, digit d r y = if r = q then (digit d q x + v) % d else digit d r x

section Indices

variable {n q v x x' y y' : ℕ}

theorem Shifted.digit_eq (h : Shifted d q v x y) : digit d q y = (digit d q x + v) % d :=
  (h q).trans (if_pos rfl)

theorem Shifted.sameOff (h : Shifted d q v x y) : SameOff d [q] y x :=
  fun r hr => (h r).trans (if_neg (List.mem_singleton.not.mp hr))

/-- Digits that become the same by one number were the same. -/
theorem digit_eq_of_add_mod_eq (hd : 0 < d) (h : (digit d q x + v) % d = (digit d q x' + v) % d) :
    digit d q x = digit d q x' := by
  have hmod : digit d q x % d = digit d q x' % d := Nat.ModEq.add_right_cancel' v h
  rwa [Nat.mod_eq_of_lt (digit_lt hd q x), Nat.mod_eq_of_lt (digit_lt hd q x')] at hmod

/-- An index is shifted to one index only. -/
theorem Shifted.unique (hd : 2 ≤ d) (h : Shifted d q v x y) (h' : Shifted d q v x y') : y = y' :=
  eq_of_all_digits hd fun r => (h r).trans (h' r).symm

/-- Only one index is shifted to an index. -/
theorem Shifted.unique_left (hd : 2 ≤ d) (h : Shifted d q v x y) (h' : Shifted d q v x' y) :
    x = x' := by
  refine eq_of_all_digits hd fun r => ?_
  by_cases hr : r = q
  · rw [hr]
    exact digit_eq_of_add_mod_eq (by omega) (h.digit_eq.symm.trans h'.digit_eq)
  · have hr : r ∉ [q] := List.mem_singleton.not.mpr hr
    exact (h.sameOff r hr).symm.trans (h'.sameOff r hr)

/-- Each index of a register is shifted to one. -/
theorem exists_shifted (hd : 0 < d) (hq : q < n) (hx : x < d ^ n) (v : ℕ) :
    ∃ y < d ^ n, Shifted d q v x y := by
  have hlt : (digit d q x + v) % d < d := Nat.mod_lt _ hd
  refine ⟨replaceDigit d q ((digit d q x + v) % d) x, replaceDigit_lt hq hlt hx, fun r => ?_⟩
  split
  · next hr => rw [hr, digit_replaceDigit q x hlt]
  · next hr => exact digit_replaceDigit_of_ne hr hlt x

/-- To each index of a register, one is shifted. -/
theorem exists_shifted_to (hd : 0 < d) (hq : q < n) (hy : y < d ^ n) (hv : v < d) :
    ∃ x < d ^ n, Shifted d q v x y := by
  have hlt : (digit d q y + (d - v)) % d < d := Nat.mod_lt _ hd
  refine ⟨replaceDigit d q ((digit d q y + (d - v)) % d) y, replaceDigit_lt hq hlt hy, fun r => ?_⟩
  split
  · next hr =>
    rw [hr, digit_replaceDigit q y hlt, Nat.mod_add_mod,
      show digit d q y + (d - v) + v = digit d q y + d by omega, Nat.add_mod_right,
      Nat.mod_eq_of_lt (digit_lt hd q y)]
  · next hr => exact (digit_replaceDigit_of_ne hr hlt y).symm

end Indices

/-! ## States -/

/-- Each amplitude of a state moves to the index whose digit at a position is some amount more,
modulo the base. The amount can depend on the index. -/
structure Adds (d q : ℕ) (amount : ℕ → ℕ) (before after : StateVector ℝ) : Prop where
  /-- The number of amplitudes stays. -/
  size_eq : after.size = before.size
  /-- The amplitudes move. -/
  amplitude_eq : ∀ x < before.size, ∀ y < before.size, Shifted d q (amount x) x y →
    after.amplitude y = before.amplitude x

/-- A basis state becomes the one to which its index is shifted, if the amount is below the base and
does not depend on the digit that is changed. -/
theorem Adds.exists_basisState {n q x : ℕ} {amount : ℕ → ℕ} {before after : StateVector ℝ}
    (h : Adds d q amount before after) (hd : 2 ≤ d) (hq : q < n) (hlt : ∀ z, amount z < d)
    (hamount : ∀ z z', SameOff d [q] z z' → amount z = amount z') (hx : x < d ^ n)
    (hbefore : before = basisState (d ^ n) x) :
    ∃ y < d ^ n, Shifted d q (amount x) x y ∧ after = basisState (d ^ n) y := by
  subst hbefore
  have hpos : 0 < d := by omega
  have hsize (z : ℕ) : (basisState (d ^ n) z : StateVector ℝ).size = d ^ n := size_build _ _
  have hamplitude {z w : ℕ} (hz : z < d ^ n) : (basisState (d ^ n) w : StateVector ℝ).amplitude z =
      if z = w then 1 else 0 := amplitude_build _ hz
  obtain ⟨y, hy, hshifted⟩ := exists_shifted hpos hq hx (amount x)
  refine ⟨y, hy, hshifted, ext_amplitude (h.size_eq.trans ((hsize x).trans (hsize y).symm)) ?_⟩
  intro z hz
  rw [h.size_eq, hsize] at hz
  -- the amplitude at an index comes from the one that is shifted there
  obtain ⟨w, hw, hto⟩ := exists_shifted_to hpos hq hz (hlt z)
  rw [← hamount w z hto.sameOff.symm] at hto
  rw [h.amplitude_eq w (by rwa [hsize]) z (by rwa [hsize]) hto, hamplitude hw, hamplitude hz]
  have hiff : w = x ↔ z = y := by
    constructor
    · rintro rfl
      exact hto.unique hd hshifted
    · rintro rfl
      have hsame : amount w = amount x :=
        hamount w x (hto.sameOff.symm.trans hshifted.sameOff)
      exact (hsame ▸ hto).unique_left hd hshifted
  simp only [hiff]

/-! ## The shift -/

/-- The entries of the powers of the shift. -/
theorem entry_shift_pow (v : ℕ) {i b : ℕ} (hi : i < d) (hb : b < d) :
    ((Gate.shift d : Operator ℝ).pow v).entry i b = if i = (b + v) % d then 1 else 0 := by
  apply Amplitude.toComplex_injective
  refine (congrFun (congrFun (Gate.matrix_shift_pow v) ⟨i, hi⟩) ⟨b, hb⟩).trans ?_
  rw [Gate.rotation, Matrix.of_apply]
  split <;> rfl

/-- Of the sum over the row of a matrix that takes each basis state `v` states further, the
amplitude that is taken to the index remains. -/
theorem inner_of_shifted (hd : 2 ≤ d) {entry : ℕ → ℕ → Amplitude ℝ} {q v x y : ℕ}
    (hentry : ∀ i < d, ∀ b < d, entry i b = if i = (b + v) % d then 1 else 0)
    (h : Shifted d q v x y) (state : StateVector ℝ) :
    Tensor.inner (entry (readDigits d [q] y)) (fun b => state.amplitude (placeDigits d [q] b y))
      (d ^ [q].length) = state.amplitude x := by
  have hpos : 0 < d := by omega
  have hread (z : ℕ) : readDigits d [q] z = digit d q z := by simp [readDigits]
  -- the first index is the second one with its own digit put back
  have hback : placeDigits d [q] (digit d q x) y = x := by
    refine eq_of_readDigits hd [q] ?_ ((SameOff.placeDigits hpos [q] _ y).trans h.sameOff)
    rw [readDigits_placeDigits hpos (List.nodup_singleton q), hread, List.length_singleton, pow_one,
      Nat.mod_eq_of_lt (digit_lt hpos q x)]
  apply Amplitude.toComplex_injective
  -- of the row, only the entry in the column of the old digit is not zero
  rw [Tensor.toComplex_inner, hread, List.length_singleton, pow_one,
    sum_eq_single_of_mem _ (mem_range.mpr (digit_lt hpos q x))]
  · rw [hentry _ (digit_lt hpos q y) _ (digit_lt hpos q x), if_pos h.digit_eq, hback,
      Amplitude.toComplex_one, one_mul]
  · intro b hb hne
    have hb := mem_range.mp hb
    rw [hentry _ (digit_lt hpos q y) _ hb, if_neg, Amplitude.toComplex_zero, zero_mul]
    intro hother
    have hmod : b % d = digit d q x % d := Nat.ModEq.add_right_cancel' v (hother.symm.trans h.digit_eq)
    rw [Nat.mod_eq_of_lt hb, Nat.mod_eq_of_lt (digit_lt hpos q x)] at hmod
    exact hne hmod

/-- At a position, the shift adds one. -/
theorem adds_shift (hd : 2 ≤ d) (q : ℕ) (state : StateVector ℝ) :
    Adds d q (fun _ => 1) state (applyOn d (Gate.shift d) [q] state) where
  size_eq := size_build _ _
  amplitude_eq x _ y hy h := by
    rw [applyOn, amplitude_build _ hy]
    refine inner_of_shifted hd (fun i hi b hb => ?_) h state
    exact Tensor.entry_matrix _ hi hb

/-- Under control of a position, the shift adds the digit there. -/
theorem adds_controlled_shift (hd : 2 ≤ d) {p q : ℕ} (hne : p ≠ q) (state : StateVector ℝ) :
    Adds d q (digit d p) state (applyControlledOn d (Gate.shift d) [p] [q] state) where
  size_eq := size_build _ _
  amplitude_eq x _ y hy h := by
    have hpos : 0 < d := by omega
    have hcontrol : ∀ r ∈ [p], digit d r y = digit d p x := by
      simpa using h.sameOff p (List.mem_singleton.not.mpr hne)
    by_cases hzero : digit d p x = 0
    · -- nothing is added, so the index is the same
      have hsame : y = x := eq_of_all_digits hd fun r => by
        rw [h r, hzero, Nat.add_zero, Nat.mod_eq_of_lt (digit_lt hpos q x)]
        split
        · next hr => rw [hr]
        · rfl
      rw [hzero] at hcontrol
      rw [amplitude_of_zeros (List.cons_ne_nil _ _) hy hcontrol, hsame]
    · rw [amplitude_of_value hpos (List.cons_ne_nil _ _) hy hzero hcontrol]
      exact inner_of_shifted hd (fun i hi b hb => entry_shift_pow _ hi hb) h state

end StateVector

end QuditSim
