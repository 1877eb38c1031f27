import Mathlib.MeasureTheory.Measure.Lebesgue.Basic
import Mathlib.Order.SuccPred.IntervalSucc
import QuditSim.Proofs.Exact

/-!
# Chance

One number between zero and one decides which index is drawn from weights. An index is drawn by the
numbers of one interval: it starts where the probabilities of the indices before it end, and it is
as long as its own probability. So if the number is uniform, the index has the chance that its
weight gives it, and one without weight has none.

- `exists_pickFrom` finds the interval that a number is in.
- `sampleIndex_eq_ok_iff` says which numbers draw an index.
- `chance_eq` is the measure of these numbers.
-/

namespace QuditSim

/-! ## Running sums -/

/-- The sum of the weights before an index. -/
def sumBefore (weights : List ℝ) (i : ℕ) : ℝ := (weights.take i).sum

section Sums

variable {weights : List ℝ}

@[simp] theorem sumBefore_zero (weights : List ℝ) : sumBefore weights 0 = 0 := rfl

@[simp] theorem sumBefore_cons_succ (w : ℝ) (weights : List ℝ) (i : ℕ) :
    sumBefore (w :: weights) (i + 1) = w + sumBefore weights i := by
  simp [sumBefore]

theorem sumBefore_succ (weights : List ℝ) (i : ℕ) :
    sumBefore weights (i + 1) = sumBefore weights i + weights.getD i 0 := by
  induction weights generalizing i with
  | nil => simp [sumBefore]
  | cons w weights ih =>
    cases i with
    | zero => simp [sumBefore]
    | succ i => rw [sumBefore_cons_succ, sumBefore_cons_succ, ih, List.getD_cons_succ, add_assoc]

/-- The weights are divided before they are summed, or after. -/
theorem sumBefore_map_div (weights : List ℝ) (t : ℝ) (i : ℕ) :
    sumBefore (weights.map (· / t)) i = sumBefore weights i / t := by
  induction weights generalizing i with
  | nil => simp [sumBefore]
  | cons w weights ih =>
    cases i with
    | zero => simp
    | succ i => rw [List.map_cons, sumBefore_cons_succ, sumBefore_cons_succ, ih, add_div]

theorem sumBefore_length (weights : List ℝ) : sumBefore weights weights.length = weights.sum := by
  rw [sumBefore, List.take_length]

theorem getD_nonneg (h : ∀ w ∈ weights, 0 ≤ w) (i : ℕ) : 0 ≤ weights.getD i 0 := by
  rw [List.getD_eq_getElem?_getD]
  cases hi : weights[i]? with
  | none => exact le_refl 0
  | some w => exact h w (List.mem_of_getElem? hi)

theorem monotone_sumBefore (h : ∀ w ∈ weights, 0 ≤ w) : Monotone (sumBefore weights) := by
  refine monotone_nat_of_le_succ fun i => ?_
  rw [sumBefore_succ]
  exact le_add_of_nonneg_right (getD_nonneg h i)

end Sums

/-! ## The numbers that draw an index -/

/-- A number below the sum of the probabilities picks an index at which the running sum goes past
it. -/
theorem exists_pickFrom {u sum : ℝ} {probabilities : List ℝ} (hlow : sum ≤ u)
    (hhigh : u < sum + probabilities.sum) (i last : ℕ) :
    ∃ k, pickFrom u probabilities i sum last = i + k ∧ sum + sumBefore probabilities k ≤ u ∧
      u < sum + sumBefore probabilities (k + 1) := by
  induction probabilities generalizing i sum last with
  | nil =>
    rw [List.sum_nil, add_zero] at hhigh
    exact absurd hhigh (not_lt.mpr hlow)
  | cons p rest ih =>
    rw [List.sum_cons, ← add_assoc] at hhigh
    -- a later index is picked from the sum that this one leaves
    have hlater (hlow : sum + p ≤ u) (last : ℕ) :
        ∃ k, pickFrom u rest (i + 1) (sum + p) last = i + k ∧
          sum + sumBefore (p :: rest) k ≤ u ∧ u < sum + sumBefore (p :: rest) (k + 1) := by
      obtain ⟨k, hpick, hbefore, hafter⟩ := ih hlow hhigh (i + 1) last
      refine ⟨k + 1, by rw [hpick]; omega, ?_, ?_⟩
      · rwa [sumBefore_cons_succ, ← add_assoc]
      · rwa [sumBefore_cons_succ, ← add_assoc]
    unfold pickFrom
    by_cases hpos : 0 < p
    · rw [if_pos hpos]
      by_cases hhit : u < sum + p
      · rw [if_pos hhit]
        refine ⟨0, rfl, ?_, ?_⟩
        · rwa [sumBefore_zero, add_zero]
        · rwa [sumBefore_cons_succ, sumBefore_zero, add_zero]
      · rw [if_neg hhit]
        exact hlater (not_lt.mp hhit) i
    -- an index without probability is passed over, and the sum does not rise there
    · rw [if_neg hpos]
      exact hlater (by linarith) last

/-- The numbers that pick an index are those from the running sum before it to that after it. -/
theorem pick_eq_iff {u : ℝ} {probabilities : List ℝ} (hnonneg : ∀ p ∈ probabilities, 0 ≤ p)
    (hlow : 0 ≤ u) (hhigh : u < probabilities.sum) (k : ℕ) :
    pick u probabilities = k ↔
      u ∈ Set.Ico (sumBefore probabilities k) (sumBefore probabilities (k + 1)) := by
  obtain ⟨j, hpick, hbefore, hafter⟩ := exists_pickFrom hlow (by rwa [zero_add]) 0 0
  rw [zero_add] at hpick hbefore hafter
  have hj : pick u probabilities = j := hpick
  rw [hj]
  constructor
  · rintro rfl
    exact ⟨hbefore, hafter⟩
  -- the intervals are disjoint, since the sums do not fall
  · intro hk
    by_contra hne
    have hmono : Monotone (sumBefore probabilities) := monotone_sumBefore hnonneg
    have hdisjoint := hmono.pairwise_disjoint_on_Ico_succ hne
    exact Set.disjoint_left.mp hdisjoint ⟨hbefore, hafter⟩ hk

section Weights

variable {weights : List ℝ} (hweights : ∀ w ∈ weights, 0 ≤ w) (hsum : 0 < weights.sum)

include hweights hsum

/-- The numbers that draw an index are those between the running sums of the weights before and
after it, each divided by the sum of all of them. -/
theorem sampleIndex_eq_ok_iff {u : ℝ} (hu : u ∈ Set.Ico 0 1) (k : ℕ) :
    sampleIndex weights u = .ok k ↔
      u ∈ Set.Ico (sumBefore weights k / weights.sum) (sumBefore weights (k + 1) / weights.sum) := by
  have hnonneg : ∀ p ∈ weights.map (· / weights.sum), 0 ≤ p := by
    intro p hp
    obtain ⟨w, hw, rfl⟩ := List.mem_map.mp hp
    exact div_nonneg (hweights w hw) hsum.le
  have hone : (weights.map (· / weights.sum)).sum = 1 := by
    rw [← sumBefore_length, List.length_map, sumBefore_map_div, sumBefore_length,
      div_self hsum.ne']
  have hpick := pick_eq_iff hnonneg hu.1 (hone ▸ hu.2) k
  rw [sumBefore_map_div, sumBefore_map_div] at hpick
  obtain ⟨i, hi⟩ := sampleIndex_eq_ok hweights hsum u
  have hdrawn : pick u (weights.map (· / weights.sum)) = i := by
    unfold sampleIndex at hi
    split at hi
    · cases hi
    · split at hi
      · cases hi
      · dsimp only at hi
        rw [← List.sum_eq_foldl] at hi
        split at hi
        · cases hi
        · exact Except.ok.inj hi
  rw [hi, Except.ok.injEq, ← hdrawn]
  exact hpick

end Weights

/-! ## Chances -/

/-- The chance of an index: the measure of the numbers between zero and one that draw it. -/
noncomputable def chance (weights : List ℝ) (i : ℕ) : ℝ :=
  MeasureTheory.volume.real {u ∈ Set.Ico (0 : ℝ) 1 | sampleIndex weights u = .ok i}

/-- An index is drawn with a chance proportional to its weight. -/
theorem chance_eq {weights : List ℝ} (hweights : ∀ w ∈ weights, 0 ≤ w) (hsum : 0 < weights.sum)
    (i : ℕ) : chance weights i = weights.getD i 0 / weights.sum := by
  have hmono := monotone_sumBefore hweights
  have hle : ∀ k, sumBefore weights k ≤ weights.sum := by
    intro k
    rw [← sumBefore_length]
    rcases Nat.le_total k weights.length with hk | hk
    · exact hmono hk
    · rw [sumBefore, List.take_of_length_le hk, sumBefore_length]
  have hinterval : {u ∈ Set.Ico (0 : ℝ) 1 | sampleIndex weights u = .ok i} =
      Set.Ico (sumBefore weights i / weights.sum) (sumBefore weights (i + 1) / weights.sum) := by
    ext u
    constructor
    · rintro ⟨hu, hdrawn⟩
      exact (sampleIndex_eq_ok_iff hweights hsum hu i).mp hdrawn
    -- all of the interval is between zero and one
    · intro hmem
      have hu : u ∈ Set.Ico (0 : ℝ) 1 :=
        ⟨(div_nonneg (hmono (Nat.zero_le i)) hsum.le).trans hmem.1,
          hmem.2.trans_le ((div_le_one hsum).mpr (hle (i + 1)))⟩
      exact ⟨hu, (sampleIndex_eq_ok_iff hweights hsum hu i).mpr hmem⟩
  have hends : sumBefore weights i / weights.sum ≤ sumBefore weights (i + 1) / weights.sum :=
    div_le_div_of_nonneg_right (hmono (Nat.le_succ i)) hsum.le
  rw [chance, hinterval, Real.volume_real_Ico_of_le hends, ← sub_div, sumBefore_succ,
    add_sub_cancel_left]

end QuditSim
