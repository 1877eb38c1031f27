import Mathlib.Algebra.Order.BigOperators.Group.List
import Mathlib.Analysis.Real.Sqrt
import Mathlib.Analysis.SpecialFunctions.Complex.Arg
import Mathlib.Data.Complex.BigOperators
import QuditSim.Proofs.State.Measure

/-!
# Exact arithmetic

The library is stated over any `Scalar`. Read over the real numbers, its amplitudes are complex
numbers and nothing is rounded.

- `Amplitude.toComplex` is the complex number of an amplitude, and the lemmas beside it carry the
  arithmetic of amplitudes over to that of complex numbers.
- `StateVector.chanceWeight_real`: chance takes the sum of the squared absolute values.
- `pos_of_sampleIndex`: only an index of positive weight is drawn.
-/

open Finset

namespace QuditSim

/-- The real numbers, which are all finite. No text that is written of them is an exact one. -/
noncomputable instance : Scalar ℝ where
  decLT := inferInstance
  decLE := inferInstance
  ofNat n := n
  sqrt := Real.sqrt
  hypot x y := √(x * x + y * y)
  isFinite _ := true
  toFloat _ := 0

/-- The trigonometry of the real numbers. -/
noncomputable instance : Angles ℝ where
  pi := Real.pi
  cos := Real.cos
  sin := Real.sin
  angle y x := Complex.arg ⟨x, y⟩
  pow x n := x ^ n

namespace Amplitude

/-- The complex number of an amplitude. -/
def toComplex (z : Amplitude ℝ) : ℂ := ⟨z.re, z.im⟩

theorem toComplex_injective {z w : Amplitude ℝ} (h : z.toComplex = w.toComplex) : z = w :=
  Amplitude.ext (congrArg Complex.re h) (congrArg Complex.im h)

@[simp] theorem toComplex_zero : (0 : Amplitude ℝ).toComplex = 0 := rfl

@[simp] theorem toComplex_one : (1 : Amplitude ℝ).toComplex = 1 := rfl

@[simp] theorem toComplex_add (z w : Amplitude ℝ) :
    (z + w).toComplex = z.toComplex + w.toComplex := rfl

@[simp] theorem toComplex_mul (z w : Amplitude ℝ) :
    (z * w).toComplex = z.toComplex * w.toComplex := rfl

@[simp] theorem toComplex_conj (z : Amplitude ℝ) :
    z.conj.toComplex = (starRingEnd ℂ) z.toComplex := rfl

@[simp] theorem toComplex_divReal (z : Amplitude ℝ) (x : ℝ) :
    (z.divReal x).toComplex = z.toComplex / x := by
  apply Complex.ext
  · rw [Complex.div_ofReal_re, div_eq_mul_one_div]
    rfl
  · rw [Complex.div_ofReal_im, div_eq_mul_one_div]
    rfl

@[simp] theorem toComplex_sumTo (f : ℕ → Amplitude ℝ) (n : ℕ) :
    (sumTo f n).toComplex = ∑ i ∈ range n, (f i).toComplex := by
  induction n with
  | zero => rfl
  | succ n ih => rw [sumTo_succ, toComplex_add, ih, sum_range_succ]

/-- The weight of an amplitude is the squared absolute value. -/
theorem weight_real (z : Amplitude ℝ) : z.weight = Complex.normSq z.toComplex := by
  rw [Complex.normSq_apply]
  exact Real.mul_self_sqrt (add_nonneg (mul_self_nonneg z.re) (mul_self_nonneg z.im))

theorem normSq_real (z : Amplitude ℝ) : z.normSq = Complex.normSq z.toComplex :=
  (Complex.normSq_apply z.toComplex).symm

end Amplitude

theorem Scalar.distance_real (x y : ℝ) : Scalar.distance x y = |x - y| := by
  unfold Scalar.distance
  split
  · next h => rw [abs_sub_comm, abs_of_pos (sub_pos.mpr h)]
  · next h => rw [abs_of_nonneg (sub_nonneg.mpr (not_lt.mp h))]

@[simp] theorem Tensor.toComplex_inner (f g : ℕ → Amplitude ℝ) (n : ℕ) :
    (Tensor.inner f g n).toComplex = ∑ i ∈ range n, (f i).toComplex * (g i).toComplex := by
  unfold Tensor.inner
  rw [Amplitude.toComplex_mul, Amplitude.toComplex_one, one_mul, Amplitude.toComplex_sumTo]
  rfl

theorem sumTo_real (f : ℕ → ℝ) (n : ℕ) : sumTo f n = ∑ i ∈ range n, f i := by
  induction n with
  | zero => rfl
  | succ n ih => rw [sumTo_succ, ih, sum_range_succ]

/-- An operator of real parts is carried into itself. -/
@[simp] theorem Tensor.round_real (op : Operator ℝ) :
    (Rounding.round op : Operator ℝ) = op := by
  apply Tensor.ext
  · rfl
  · exact Array.map_id op.entries

namespace StateVector

/-- Chance takes the sum of the squared absolute values of the amplitudes. -/
theorem chanceWeight_real (state : StateVector ℝ) :
    (chanceWeight state : ℝ) =
      ∑ x ∈ range state.size, Complex.normSq (state.amplitude x).toComplex := by
  show sumTo (fun x => (state.amplitude x).weight) state.size = _
  rw [sumTo_real]
  exact sum_congr rfl fun x _ => Amplitude.weight_real _

/-- The norm is that of the vector of complex numbers. -/
theorem norm_real (state : StateVector ℝ) :
    state.norm = √(∑ x ∈ range state.size, Complex.normSq (state.amplitude x).toComplex) := by
  unfold norm normSq
  rw [sumTo_real]
  exact congrArg Real.sqrt (sum_congr rfl fun x _ => Amplitude.normSq_real _)

/-- The check of norms accepts a state just if its norm is near enough to one. -/
theorem assertNormalized_real (state : StateVector ℝ) {tolerance : Written ℝ}
    (h : 0 ≤ tolerance.value) :
    state.assertNormalized tolerance = .ok () ↔ |state.norm - 1| ≤ tolerance.value := by
  have hunit : isUnit tolerance.value state.norm = true ↔ |state.norm - 1| ≤ tolerance.value := by
    unfold isUnit
    rw [Scalar.distance_real, Bool.or_eq_true, beq_iff_eq]
    constructor
    · rintro (hone | hnear)
      · rw [hone, sub_self, abs_zero]
        exact h
      · exact of_decide_eq_true hnear
    · exact fun hnear => .inr (decide_eq_true hnear)
  have hentries : (Tensor.ofFn [] fun _ => state.norm).entries = #[state.norm] := rfl
  unfold assertNormalized checkNorms checkFinite checkUnit
  rw [hentries, if_neg (by simp [Scalar.isFinite]), ← hunit]
  show (if #[state.norm].all (isUnit tolerance.value) then .ok () else .error _ :
    Except StateFault Unit) = _ ↔ _
  rw [Fallible.require_eq_ok]
  simp

/-- A state divided by the root of a weight. -/
theorem amplitude_divRoot_real (state : StateVector ℝ) (weight : ℝ) (x : ℕ) :
    ((state.divRoot weight).amplitude x).toComplex =
      (state.amplitude x).toComplex / (√weight : ℝ) := by
  unfold divRoot amplitude
  by_cases hx : x < state.size
  · simp only [Array.getD_eq_getD_getElem?, Array.getElem?_map, Array.getElem?_eq_getElem hx,
      Option.map_some, Option.getD_some]
    exact Amplitude.toComplex_divReal _ _
  · simp only [Array.getD_eq_getD_getElem?, Array.getElem?_map,
      Array.getElem?_eq_none (Nat.le_of_not_lt hx), Option.map_none, Option.getD_none,
      Amplitude.toComplex_zero, zero_div]

end StateVector

/-! ## Drawing -/

/-- The picked index is that of a positive probability, if there is one. -/
theorem pickFrom_cases {S : Type} [Scalar S] (u : S) (probabilities : List S) (i : ℕ) (sum : S)
    (last : ℕ) :
    (∃ k, 0 < probabilities.getD k 0 ∧ pickFrom u probabilities i sum last = i + k) ∨
      (∀ p ∈ probabilities, ¬ 0 < p) ∧ pickFrom u probabilities i sum last = last := by
  induction probabilities generalizing i sum last with
  | nil => exact .inr ⟨fun _ hp => (nomatch hp), rfl⟩
  | cons p rest ih =>
    unfold pickFrom
    by_cases hp : 0 < p
    · rw [if_pos hp]
      split
      · exact .inl ⟨0, hp, rfl⟩
      -- if no later index is picked, it is this one, which was the last of positive probability
      · rcases ih (i + 1) (sum + p) i with ⟨k, hk, heq⟩ | ⟨-, heq⟩
        · exact .inl ⟨k + 1, hk, by rw [heq]; omega⟩
        · exact .inl ⟨0, hp, heq⟩
    · rw [if_neg hp]
      rcases ih (i + 1) (sum + p) last with ⟨k, hk, heq⟩ | ⟨hnone, heq⟩
      · exact .inl ⟨k + 1, hk, by rw [heq]; omega⟩
      · exact .inr ⟨List.forall_mem_cons.mpr ⟨hp, hnone⟩, heq⟩

/-- Only an index of positive weight is drawn. -/
theorem pos_of_sampleIndex {weights : List ℝ} {u : ℝ} {i : ℕ}
    (h : sampleIndex weights u = .ok i) : 0 < weights.getD i 0 := by
  unfold sampleIndex at h
  split at h
  · cases h
  · split at h
    · cases h
    · dsimp only at h
      split at h
      · cases h
      · next htotal =>
        cases h
        have htotal : 0 < weights.foldl (· + ·) 0 := not_le.mp htotal
        -- a probability is a weight by the positive total, so it is positive just if the weight is
        have hdiv (k : ℕ) : (weights.map (· / weights.foldl (· + ·) 0)).getD k 0 =
            weights.getD k 0 / weights.foldl (· + ·) 0 := by
          simp only [List.getD_eq_getElem?_getD, List.getElem?_map]
          cases weights[k]? with
          | none => exact (zero_div _).symm
          | some w => rfl
        rcases pickFrom_cases u (weights.map (· / weights.foldl (· + ·) 0)) 0 0 0 with
          ⟨k, hk, heq⟩ | ⟨hnone, -⟩
        · rw [hdiv] at hk
          have hindex : pick u (weights.map (· / weights.foldl (· + ·) 0)) = k :=
            heq.trans (Nat.zero_add k)
          rw [hindex]
          exact (div_pos_iff_of_pos_right htotal).mp hk
        · exfalso
          -- weights of which none is positive have no positive total
          have hnonpos : ∀ w ∈ weights, w ≤ 0 := by
            intro w hw
            have hquot := not_lt.mp (hnone _ (List.mem_map_of_mem hw))
            exact (div_nonpos_iff.mp hquot).elim (fun hcases => absurd hcases.2 (not_le.mpr htotal))
              fun hcases => hcases.1
          rw [← List.sum_eq_foldl] at htotal
          have hsum := List.sum_le_card_nsmul weights 0 hnonpos
          rw [smul_zero] at hsum
          exact absurd hsum (not_le.mpr htotal)

/-- From weights that are those of a range, an index of the range is drawn, and one of positive
weight. -/
theorem drawn_of_sampleIndex {k : ℕ} {weight : ℕ → ℝ} {u : ℝ} {i : ℕ}
    (h : sampleIndex ((List.range k).map weight) u = .ok i) : i < k ∧ 0 < weight i := by
  have hlt : i < k := by simpa using lt_of_sampleIndex h
  have hpos := pos_of_sampleIndex h
  rw [StateVector.getD_map_range _ hlt] at hpos
  exact ⟨hlt, hpos⟩

/-- Weights of positive sum are drawn from. -/
theorem sampleIndex_eq_ok {weights : List ℝ} (hweights : ∀ w ∈ weights, 0 ≤ w)
    (hsum : 0 < weights.sum) (u : ℝ) : ∃ i, sampleIndex weights u = .ok i := by
  have hne : weights ≠ [] := by
    rintro rfl
    exact absurd hsum (lt_irrefl 0)
  have hfinite : (weights.any fun w => !Scalar.isFinite w || decide (w < 0)) = false := by
    rw [List.any_eq_false]
    intro w hw
    have hnot : ¬ w < 0 := not_lt.mpr (hweights w hw)
    simp [Scalar.isFinite, hnot]
  have htotal : ¬ weights.foldl (· + ·) 0 ≤ 0 := by
    rw [← List.sum_eq_foldl]
    exact not_le.mpr hsum
  unfold sampleIndex
  rw [if_neg hne, hfinite]
  exact ⟨_, if_neg htotal⟩

/-- From weights that are not negative, an index is drawn just if they have a sum. -/
theorem exists_sampleIndex_iff {weights : List ℝ} (hweights : ∀ w ∈ weights, 0 ≤ w) (u : ℝ) :
    (∃ i, sampleIndex weights u = .ok i) ↔ weights.sum ≠ 0 := by
  constructor
  · rintro ⟨i, hi⟩ hzero
    have hpos := pos_of_sampleIndex hi
    have hlt := lt_of_sampleIndex hi
    rw [List.getD_eq_getElem?_getD, List.getElem?_eq_getElem hlt, Option.getD_some] at hpos
    -- the drawn weight is at most the sum of all of them
    have hle := List.single_le_sum hweights _ (List.getElem_mem hlt)
    exact absurd (hpos.trans_le hle) hzero.not_gt
  · intro hsum
    exact sampleIndex_eq_ok hweights (lt_of_le_of_ne (List.sum_nonneg hweights) hsum.symm) u

end QuditSim
