import Mathlib.Algebra.Order.Ring.Basic
import Mathlib.Algebra.Order.Ring.Int
import Mathlib.Data.Nat.Find
import Mathlib.Tactic.Common
import QuditSim.State.Basic

/-!
# The qudits of a vector

The number of qudits is found by a loop that multiplies a total by the dimension as long as it is
below the length. Nothing keeps the loop from going on: it ends just if some power of the dimension
is as large as the length, and no power of a dimension between minus one and one is ever larger than
one. A dimension below minus one has large powers too, those of even exponents.

- `StateVector.Counts` is the loop, without a bound on its rounds.
- `StateVector.exists_counts_iff` tells when it ends, and `StateVector.quditCount_eq_endless_iff`
  that the bounded loop misses no end.
- `StateVector.quditCount_eq_ok_iff` and `StateVector.quditCount_eq_notPower_iff` are the answers
  for every length and every integer as dimension.
- `StateVector.quditCount_pow`, `StateVector.size_of_quditCount` and `StateVector.quditCount_cases`
  are what this comes to for qudits of dimension two or more.
-/

namespace QuditSim.StateVector

variable {dim : ℤ} {size : ℕ}

/-! ## The loop -/

/-- The loop that multiplies a total by a dimension as long as it is below a size. From a total and
a number of factors it ends with a total and a number of factors. -/
inductive Counts (dim : ℤ) (size : ℕ) : ℤ → ℕ → ℤ × ℕ → Prop where
  /-- The total has reached the size. -/
  | reached {total : ℤ} {n : ℕ} (h : ¬ total < size) : Counts dim size total n (total, n)
  /-- The total is below the size, and there is one more factor. -/
  | factor {total : ℤ} {n : ℕ} {found : ℤ × ℕ} (h : total < size)
      (hrest : Counts dim size (total * dim) (n + 1) found) : Counts dim size total n found

/-- The first power of a dimension that reaches a size has a given exponent. -/
def FirstReached (dim : ℤ) (size k : ℕ) : Prop := (∀ i < k, dim ^ i < size) ∧ (size : ℤ) ≤ dim ^ k

/-- From a power before which the size was not reached, the loop ends with the first power that
reaches it. -/
theorem counts_power_iff {j : ℕ} (hbelow : ∀ i < j, dim ^ i < size) {found : ℤ × ℕ} :
    Counts dim size (dim ^ j) j found ↔ ∃ k, found = (dim ^ k, k) ∧ FirstReached dim size k := by
  constructor
  · intro h
    -- the total is a variable of the loop, and a power whenever the loop comes by
    generalize htotal : dim ^ j = total at h
    induction h with
    | reached h => exact ⟨_, by rw [htotal], hbelow, by rw [htotal]; exact not_lt.mp h⟩
    | factor h hrest ih =>
      refine ih (fun i hi => ?_) (by rw [pow_succ, htotal])
      rcases Nat.lt_succ_iff_lt_or_eq.mp hi with hi | rfl
      · exact hbelow i hi
      · exact htotal ▸ h
  · rintro ⟨k, rfl, hfirst, hreached⟩
    have hjk : j ≤ k := by
      by_contra hlt
      exact absurd (hbelow k (not_le.mp hlt)) (not_lt.mpr hreached)
    -- the rounds are counted back from the last one
    induction hjk using Nat.decreasingInduction with
    | self => exact .reached (not_lt.mpr hreached)
    | of_succ j hj ih =>
      refine .factor (hfirst j hj) ?_
      rw [← pow_succ]
      exact ih fun i hi => hfirst i (by omega)

/-- The first power that reaches a size is found if there is one, provided the rounds suffice. -/
theorem countFactors_eq_some_iff {fuel j : ℕ} (hbelow : ∀ i < j, dim ^ i < size) {found : ℤ × ℕ} :
    countFactors dim size fuel (dim ^ j) j = some found ↔
      ∃ k < j + fuel, found = (dim ^ k, k) ∧ FirstReached dim size k := by
  induction fuel generalizing j with
  | zero =>
    -- a size that is not reached before the last round is not reached in the rounds there are
    refine iff_of_false nofun ?_
    rintro ⟨k, hk, -, -, hreached⟩
    exact absurd (hbelow k hk) (not_lt.mpr hreached)
  | succ fuel ih =>
    unfold countFactors
    split
    · next hlt =>
      have hbelow' : ∀ i < j + 1, dim ^ i < size := fun i hi =>
        (Nat.lt_succ_iff_lt_or_eq.mp hi).elim (hbelow i) fun heq => heq ▸ hlt
      rw [← pow_succ, ih hbelow', Nat.add_right_comm]
      rfl
    · next hreached =>
      rw [Option.some_inj, eq_comm]
      constructor
      · rintro rfl
        exact ⟨j, by omega, rfl, hbelow, not_lt.mp hreached⟩
      · rintro ⟨k, -, rfl, hfirst, hk⟩
        obtain rfl : k = j := by
          refine Nat.le_antisymm (not_lt.mp fun hjk => hreached (hfirst j hjk)) ?_
          exact not_lt.mp fun hkj => absurd (hbelow k hkj) (not_lt.mpr hk)
        rfl

/-! ## When the loop ends -/

/-- No power of a dimension between minus one and one is larger than one. -/
theorem pow_le_one_of_natAbs_le_one (hdim : dim.natAbs ≤ 1) (k : ℕ) : dim ^ k ≤ 1 := by
  have habs : (dim ^ k).natAbs ≤ 1 := by
    rw [Int.natAbs_pow]
    exact pow_le_one₀ (Nat.zero_le _) hdim
  omega

/-- A power of any other dimension is less far from zero than each later one. -/
theorem natAbs_pow_lt (hdim : 2 ≤ dim.natAbs) {i k : ℕ} (hik : i < k) :
    (dim ^ i).natAbs < (dim ^ k).natAbs := by
  rw [Int.natAbs_pow, Int.natAbs_pow]
  exact Nat.pow_lt_pow_right hdim hik

/-- The powers of even exponents are larger than their exponents. -/
theorem lt_pow_of_even (hdim : 2 ≤ dim.natAbs) {k : ℕ} (hk : Even k) : (k : ℤ) < dim ^ k := by
  have hlt : k < (dim ^ k).natAbs := by
    rw [Int.natAbs_pow]
    exact Nat.lt_pow_self hdim
  have hnonneg : 0 ≤ dim ^ k := hk.pow_nonneg dim
  omega

/-- A size is reached just if it is at most one, or if the dimension has powers beyond one. -/
theorem exists_firstReached_iff : (∃ k, FirstReached dim size k) ↔ size ≤ 1 ∨ 2 ≤ dim.natAbs := by
  constructor
  · rintro ⟨k, -, hreached⟩
    by_contra hnot
    push Not at hnot
    have := pow_le_one_of_natAbs_le_one (show dim.natAbs ≤ 1 by omega) k
    omega
  · intro h
    have hsome : ∃ k, (size : ℤ) ≤ dim ^ k := by
      rcases h with hsize | hdim
      · exact ⟨0, by rw [pow_zero]; omega⟩
      · have := lt_pow_of_even hdim (even_two_mul size)
        exact ⟨2 * size, by push_cast at this; omega⟩
    classical
    exact ⟨Nat.find hsome, fun i hi => not_le.mp (Nat.find_min hsome hi), Nat.find_spec hsome⟩

/-- A size of at most one is reached without a factor. -/
theorem FirstReached.eq_zero {k : ℕ} (h : FirstReached dim size k) (hsize : size ≤ 1) : k = 0 := by
  refine Nat.eq_zero_of_not_pos fun hpos => ?_
  have := h.1 0 hpos
  rw [pow_zero] at this
  omega

/-- The exponent of the first power that reaches a size is at most one more than the size. -/
theorem FirstReached.le_succ {k : ℕ} (h : FirstReached dim size k) : k ≤ size + 1 := by
  rcases exists_firstReached_iff.mp ⟨k, h⟩ with hsize | hdim
  · rw [h.eq_zero hsize]
    exact Nat.zero_le _
  by_contra hlt
  -- one of the two exponents before is even, and its power has reached the size
  rcases Nat.even_or_odd size with heven | hodd
  · exact lt_asymm (h.1 size (by omega)) (lt_pow_of_even hdim heven)
  · have hpower := lt_pow_of_even hdim hodd.add_one
    have hbelow := h.1 (size + 1) (by omega)
    push_cast at hpower
    omega

/-- From the start, the loop ends with the first power that reaches the size. -/
theorem counts_start_iff {found : ℤ × ℕ} :
    Counts dim size 1 0 found ↔ ∃ k, found = (dim ^ k, k) ∧ FirstReached dim size k := by
  rw [← pow_zero dim]
  exact counts_power_iff fun i hi => absurd hi (Nat.not_lt_zero i)

/-- The loop ends just if the length is at most one or the dimension has powers beyond one. -/
theorem exists_counts_iff :
    (∃ found, Counts dim size 1 0 found) ↔ size ≤ 1 ∨ 2 ≤ dim.natAbs := by
  rw [← exists_firstReached_iff]
  constructor
  · rintro ⟨found, h⟩
    obtain ⟨k, -, hk⟩ := counts_start_iff.mp h
    exact ⟨k, hk⟩
  · rintro ⟨k, hk⟩
    exact ⟨_, counts_start_iff.mpr ⟨k, rfl, hk⟩⟩

/-- As many rounds as the length has units, and two more, miss no end of the loop. -/
theorem countFactors_eq_some_iff_counts {found : ℤ × ℕ} :
    countFactors dim size (size + 2) 1 0 = some found ↔ Counts dim size 1 0 found := by
  have hrounds : countFactors dim size (size + 2) 1 0 = some found ↔
      ∃ k < 0 + (size + 2), found = (dim ^ k, k) ∧ FirstReached dim size k := by
    conv_lhs => rw [← pow_zero dim]
    exact countFactors_eq_some_iff fun i hi => absurd hi (Nat.not_lt_zero i)
  rw [hrounds, counts_start_iff]
  refine exists_congr fun k => ⟨fun h => h.2, fun h => ⟨?_, h⟩⟩
  have := h.2.le_succ
  omega

/-! ## Answers -/

/-- The qudits are counted by the exponent of the first power that reaches the length, if that is
the length. -/
theorem quditCount_of_firstReached {k : ℕ} (h : FirstReached dim size k) :
    quditCount size dim =
      if dim ^ k = size then .ok k else .error (.notPower size dim) := by
  have hcount := countFactors_eq_some_iff_counts.mpr (counts_start_iff.mpr ⟨k, rfl, h⟩)
  unfold quditCount
  rw [Argument.number?_int]
  dsimp only
  rw [hcount]

/-- Where no power reaches the length, the loop does not end. -/
theorem quditCount_of_never (h : ¬ ∃ k, FirstReached dim size k) :
    quditCount size dim = .error .endless := by
  have hcount : countFactors dim size (size + 2) 1 0 = none := by
    rw [Option.eq_none_iff_forall_ne_some]
    intro found hfound
    obtain ⟨k, -, hk⟩ := counts_start_iff.mp (countFactors_eq_some_iff_counts.mp hfound)
    exact h ⟨k, hk⟩
  unfold quditCount
  rw [Argument.number?_int]
  dsimp only
  rw [hcount]

/-- The bounded loop finds no end just if the unbounded one has none. -/
theorem quditCount_eq_endless_iff :
    quditCount size dim = .error .endless ↔ 2 ≤ size ∧ dim.natAbs ≤ 1 := by
  have hnever : (¬ ∃ k, FirstReached dim size k) ↔ 2 ≤ size ∧ dim.natAbs ≤ 1 := by
    rw [exists_firstReached_iff]
    omega
  rw [← hnever]
  refine ⟨?_, quditCount_of_never⟩
  rintro hendless ⟨k, hk⟩
  rw [quditCount_of_firstReached hk] at hendless
  split at hendless <;> cases hendless

/-- The power of a dimension that is as large as a length is the first one that reaches it. -/
theorem firstReached_of_pow_eq {n : ℕ} (hn : n = 0 ∨ 2 ≤ dim.natAbs) (h : dim ^ n = size) :
    FirstReached dim size n := by
  refine ⟨fun i hi => ?_, h.ge⟩
  have hlt := natAbs_pow_lt (hn.resolve_left (by omega)) hi
  omega

/-- There are `n` qudits just if the length is the power of the dimension with this exponent. A
dimension without powers beyond one has the exponent zero only. -/
theorem quditCount_eq_ok_iff {n : ℕ} :
    quditCount size dim = .ok n ↔ dim ^ n = size ∧ (n = 0 ∨ 2 ≤ dim.natAbs) := by
  constructor
  · intro h
    by_cases hreached : ∃ k, FirstReached dim size k
    · obtain ⟨k, hk⟩ := hreached
      rw [quditCount_of_firstReached hk] at h
      split at h
      · next hpow =>
        cases h
        exact ⟨hpow, (exists_firstReached_iff.mp ⟨_, hk⟩).imp hk.eq_zero id⟩
      · cases h
    · cases (quditCount_of_never hreached).symm.trans h
  · rintro ⟨hpow, hn⟩
    rw [quditCount_of_firstReached (firstReached_of_pow_eq hn hpow), if_pos hpow]

/-- A length is refused just if the loop ends and no power of the dimension is the length. -/
theorem quditCount_eq_notPower_iff :
    quditCount size dim = .error (.notPower size dim) ↔
      size = 0 ∨ 2 ≤ dim.natAbs ∧ ∀ n, dim ^ n ≠ size := by
  constructor
  · intro h
    by_cases hreached : ∃ k, FirstReached dim size k
    · rcases exists_firstReached_iff.mp hreached with hsize | hdim
      · refine .inl (Nat.eq_zero_of_not_pos fun hpos => ?_)
        have hone : quditCount size dim = .ok 0 :=
          quditCount_eq_ok_iff.mpr ⟨by rw [pow_zero]; omega, .inl rfl⟩
        cases hone.symm.trans h
      · refine .inr ⟨hdim, fun n hn => ?_⟩
        cases (quditCount_eq_ok_iff.mpr ⟨hn, .inr hdim⟩).symm.trans h
    · cases (quditCount_of_never hreached).symm.trans h
  · intro h
    obtain ⟨k, hk⟩ := exists_firstReached_iff.mpr (show size ≤ 1 ∨ 2 ≤ dim.natAbs by omega)
    rw [quditCount_of_firstReached hk]
    refine if_neg fun hpow => ?_
    rcases h with rfl | ⟨-, hnone⟩
    · rw [hk.eq_zero (Nat.zero_le 1), pow_zero] at hpow
      exact absurd hpow one_ne_zero
    · exact hnone k hpow

/-! ## Registers -/

variable {d : ℕ}

/-- A register of `d ^ m` basis states holds `m` qudits. -/
theorem quditCount_pow (hd : 2 ≤ d) (m : ℕ) : quditCount (d ^ m) (.nat d) = .ok m :=
  quditCount_eq_ok_iff.mpr ⟨(Int.natCast_pow d m).symm, .inr hd⟩

/-- A register whose qudits were counted has a power of the dimension as its number of basis
states. -/
theorem size_of_quditCount {size n : ℕ} (h : quditCount size (.nat d) = .ok n) : size = d ^ n := by
  have hpow : (d : ℤ) ^ n = size := (quditCount_eq_ok_iff.mp h).1
  exact_mod_cast hpow.symm

/-- Qudits of a dimension are counted, or the length is refused. -/
theorem quditCount_cases (hd : 2 ≤ d) (size : ℕ) :
    (∃ n, quditCount size (.nat d) = .ok n) ∨
      quditCount size (.nat d) = .error (.notPower size (.nat d)) := by
  have hdim : 2 ≤ (d : ℤ).natAbs := hd
  obtain ⟨k, hk⟩ := exists_firstReached_iff.mpr (.inr hdim)
  have hcount : quditCount size (.nat d) =
      if (d : ℤ) ^ k = size then .ok k else .error (.notPower size (.nat d)) :=
    quditCount_of_firstReached hk
  rw [hcount]
  split
  · exact .inl ⟨k, rfl⟩
  · exact .inr rfl

end QuditSim.StateVector
