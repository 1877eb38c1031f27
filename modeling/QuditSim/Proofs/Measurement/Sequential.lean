import QuditSim.Proofs.Engine.Weights
import QuditSim.Proofs.State.Axes

/-!
# Measurements in sequence

Positions that are measured one after the other are renumbered after each of them, and the state is
divided by the root of a weight each time. What comes out does not show this: the probability is the
weight of the amplitudes with all the digits found, and the state that remains has these amplitudes,
divided by the root of their weight.

- `Narrows` is the invariant: the state so far has the amplitudes with the digits found so far.
- `Narrows.run_measureOne` is the step, and `Narrows.run_measureEach` the run over several positions.
- `StateVector.measureSequential_outcomes` is the measurement of positions of a register. What it leaves
  does not depend on the order in which they were listed.
-/

open Finset

namespace QuditSim

open Layout

variable {d n : ℕ}

/-! ## Digits that were found -/

/-- The digits found at positions. -/
def foundAt (targets outcomes : List ℕ) : List (Int × ℕ) :=
  (targets.zip outcomes).map fun pair => ((pair.1 : Int), pair.2)

/-- An index of the register has the digits of a smaller index, in order, off some positions. -/
structure Extends (d n : ℕ) (targets : List ℕ) (y x : ℕ) : Prop where
  /-- The index is one of the register. -/
  lt : x < d ^ n
  /-- Off the positions, its digits are those of the smaller index. -/
  digit_eq : ∀ q < n, q ∉ targets → digit d q x = digit d (Nat.count (· ∉ targets) q) y

instance (found : List (Int × ℕ)) (x : ℕ) : Decidable (Consistent d found x) := by
  unfold Consistent
  infer_instance

theorem foundAt_cons (q : ℕ) (targets : List ℕ) (v : ℕ) (outcomes : List ℕ) :
    foundAt (q :: targets) (v :: outcomes) = [((q : Int), v)] ++ foundAt targets outcomes := rfl

theorem keys_foundAt {targets outcomes : List ℕ} (h : outcomes.length = targets.length) :
    (foundAt targets outcomes).map Prod.fst = targets.map fun q : ℕ => (q : Int) := by
  have hzip : (targets.zip outcomes).map Prod.fst = targets := List.map_fst_zip h.ge
  calc (foundAt targets outcomes).map Prod.fst
      = ((targets.zip outcomes).map Prod.fst).map fun q : ℕ => (q : Int) := by
        rw [foundAt, List.map_map, List.map_map]
        rfl
    _ = targets.map fun q : ℕ => (q : Int) := by rw [hzip]

theorem foundAt_ne_nil {targets outcomes : List ℕ} (htargets : targets ≠ [])
    (h : outcomes.length = targets.length) : foundAt targets outcomes ≠ [] := by
  intro hnil
  have hkeys := keys_foundAt h
  rw [hnil] at hkeys
  exact htargets (List.map_eq_nil_iff.mp hkeys.symm)

theorem consistent_foundAt {targets outcomes : List ℕ} {x : ℕ} :
    Consistent d (foundAt targets outcomes) x ↔
      ∀ pair ∈ targets.zip outcomes, digit d pair.1 x = pair.2 := by
  unfold Consistent foundAt
  simp only [List.forall_mem_map, Int.toNat_natCast]

theorem place_natCast (targets : List ℕ) (q : ℕ) :
    place (targets.map fun q : ℕ => (q : Int)) q = Nat.count (· ∉ targets) q := by
  unfold place
  simp

/-- Different positions leave as many qudits fewer. -/
theorem place_targets {targets : List ℕ} (htargets : TargetList n (targets.map fun q : ℕ => (q : Int))) :
    place (targets.map fun q : ℕ => (q : Int)) n = n - targets.length := by
  have hcount := place_append_list htargets.inRange (fun _ _ => List.not_mem_nil) htargets.nodup
  rw [List.nil_append, place_nil, List.length_map] at hcount
  omega

/-- The full index of a smaller one has its digits, in order, off the positions of the findings. -/
theorem extends_fullIndex (hd : 0 < d) {found : List (Int × ℕ)} (h : Findings d n found)
    {targets : List ℕ} (hkeys : found.map Prod.fst = targets.map fun q : ℕ => (q : Int)) (y : ℕ) :
    Extends d n targets y (fullIndex d n found y) where
  lt := fullIndex_lt hd h y
  digit_eq q hq hlive := by
    have hcast : (q : Int) ∉ found.map Prod.fst := by
      rw [hkeys]
      simpa using hlive
    rw [digit_fullIndex_of_live hd h hq hcast, hkeys, place_natCast]

/-! ## What is left of the amplitudes -/

/-- The weight of the amplitudes with the digits found. -/
def foundWeight (d n : ℕ) (psi : ℕ → ℂ) (found : List (Int × ℕ)) : ℝ :=
  ∑ x ∈ range (d ^ n) with Consistent d found x, Complex.normSq (psi x)

/-- The amplitudes with the digits found, divided by the root of a weight. -/
noncomputable def narrowed (d : ℕ) (psi : ℕ → ℂ) (found : List (Int × ℕ)) (product : ℝ) (x : ℕ) : ℂ :=
  if Consistent d found x then psi x / (√product : ℝ) else 0

/-- A state that is left of amplitudes when digits were found, with the product of the weights that they
were found with. Once there are any, the product is the weight of the amplitudes with these digits. -/
structure Narrows (d n : ℕ) (psi : ℕ → ℂ) (found : List (Int × ℕ)) (product : ℝ)
    (state : StateVector ℝ) : Prop where
  /-- The digits were found at different qudits. -/
  findings : Findings d n found
  /-- The product is positive. -/
  product_pos : 0 < product
  /-- The product is the weight of what was found. -/
  product_eq : found ≠ [] → product = foundWeight d n psi found
  /-- The state has the amplitudes with the digits found. -/
  restricts : Restricts d n found (narrowed d psi found product) state
  /-- The state has a weight. -/
  weight_pos : 0 < (StateVector.chanceWeight state : ℝ)
  /-- After a measurement, this is one. -/
  weight_eq : found ≠ [] → (StateVector.chanceWeight state : ℝ) = 1

section Narrowing

variable {psi : ℕ → ℂ} {found : List (Int × ℕ)} {product : ℝ} {q v : ℕ}

theorem consistent_append_singleton {x : ℕ} :
    Consistent d (found ++ [((q : Int), v)]) x ↔ Consistent d found x ∧ digit d q x = v := by
  rw [consistent_append]
  refine and_congr_right fun _ => ?_
  unfold Consistent
  rw [List.forall_mem_singleton, Int.toNat_natCast]

/-- The weight of one more digit is that of all digits found, divided by the product so far. -/
theorem weight_narrowed (hproduct : 0 < product) :
    FullRun.weight d n [q] (narrowed d psi found product) v =
      foundWeight d n psi (found ++ [((q : Int), v)]) / product := by
  unfold FullRun.weight foundWeight
  rw [sum_div, sum_filter]
  refine sum_congr rfl fun x _ => ?_
  have hread : readDigits d [q] x = digit d q x := by simp
  rw [hread]
  unfold narrowed
  simp only [consistent_append_singleton]
  -- only an amplitude with all digits is counted, and the weight squares the root that divides it
  by_cases hv : digit d q x = v
  · by_cases hfound : Consistent d found x
    · rw [if_pos hv, if_pos hfound, if_pos ⟨hfound, hv⟩, Complex.normSq_div, Complex.normSq_ofReal,
        Real.mul_self_sqrt hproduct.le]
    · rw [if_pos hv, if_neg hfound, if_neg fun h => hfound h.1, Complex.normSq_zero]
  · rw [if_neg hv, if_neg fun h => hv h.2]

/-- Projecting onto one more digit narrows to all digits found. -/
theorem project_narrowed (hproduct : 0 < product) :
    FullRun.project d n [q] (narrowed d psi found product) v =
      narrowed d psi (found ++ [((q : Int), v)])
        (product * FullRun.weight d n [q] (narrowed d psi found product) v) := by
  funext x
  have hread : readDigits d [q] x = digit d q x := by simp
  unfold FullRun.project
  rw [hread]
  -- which weight it is does not matter, only that the roots are multiplied
  generalize FullRun.weight d n [q] (narrowed d psi found product) v = weight
  unfold narrowed
  simp only [consistent_append_singleton]
  by_cases hv : digit d q x = v
  · by_cases hfound : Consistent d found x
    · rw [if_pos hv, if_pos hfound, if_pos ⟨hfound, hv⟩, Real.sqrt_mul hproduct.le,
        Complex.ofReal_mul, div_div]
    · rw [if_pos hv, if_neg hfound, if_neg fun h => hfound h.1, zero_div]
  · rw [if_neg hv, if_neg fun h => hv h.2]

end Narrowing

namespace Narrows

variable {psi : ℕ → ℂ} {found : List (Int × ℕ)} {product : ℝ} {state : StateVector ℝ}

/-- Before any measurement nothing is narrowed. -/
theorem start (hd : 0 < d) (hsize : state.size = d ^ n)
    (hweight : 0 < (StateVector.chanceWeight state : ℝ)) :
    Narrows d n (fun x => (state.amplitude x).toComplex) [] 1 state where
  findings := .nil d n
  product_pos := one_pos
  product_eq h := absurd rfl h
  restricts := by
    have hsame : narrowed d (fun x => (state.amplitude x).toComplex) [] 1 =
        fun x => (state.amplitude x).toComplex := by
      funext x
      have hnone : Consistent d [] x := fun _ hf => nomatch hf
      unfold narrowed
      rw [if_pos hnone, Real.sqrt_one, Complex.ofReal_one, div_one]
    rw [hsame]
    exact Restricts.self hd hsize
  weight_pos := hweight
  weight_eq h := absurd rfl h

/-- Measuring one more position succeeds, and what is left has one more digit found. -/
theorem run_measureOne (hd : 0 < d) (h : Narrows d n psi found product state) {q : ℕ} (hq : q < n)
    (hlive : (q : Int) ∉ found.map Prod.fst) (draws : Draws ℝ) :
    ∃ v weight rest,
      (StateVector.measureOne (S := ℝ) d (place (found.map Prod.fst) q) state).run.run draws =
        (.ok ⟨v, weight, rest⟩, draws.advance) ∧
      Narrows d n psi (found ++ [((q : Int), v)]) (product * weight) rest := by
  have hrange : InRange n (q : Int) := ⟨Int.natCast_nonneg q, Int.ofNat_lt.mpr hq⟩
  have hsum := StateVector.sum_digitWeights hd h.restricts.size_eq (place_lt hlive hq)
  -- the digits have the weight of the state together, so one of them is drawn
  obtain ⟨v, hdrawn⟩ : ∃ v, sampleIndex
      (StateVector.digitWeights d (place (found.map Prod.fst) q) state : List ℝ) draws.current =
        .ok v := by
    refine sampleIndex_eq_ok (fun w hw => ?_) (hsum ▸ h.weight_pos) _
    obtain ⟨u, -, rfl⟩ := List.mem_map.mp hw
    exact StateVector.chanceWeight_nonneg _
  obtain ⟨hv, hpos⟩ := drawn_of_sampleIndex hdrawn
  obtain ⟨hweight, hfindings, hrestricts⟩ := h.restricts.measured hd h.findings hrange hlive hv
  rw [Int.toNat_natCast] at hweight hrestricts
  have hone := StateVector.chanceWeight_divRoot hpos
  refine ⟨v, _, _, by rw [StateVector.run_measureOne, hdrawn], ?_⟩
  exact
    { findings := hfindings
      product_pos := mul_pos h.product_pos hpos
      product_eq := fun _ => by
        rw [hweight, weight_narrowed h.product_pos, mul_div_cancel₀ _ h.product_pos.ne']
      restricts := by
        rw [project_narrowed h.product_pos] at hrestricts
        rwa [hweight]
      weight_pos := lt_of_lt_of_eq one_pos hone.symm
      weight_eq := fun _ => hone }

/-- The positions that remain are those of the live qudits that remain. -/
theorem closeGap_map_place {gone : List Int} {q : ℕ} (hq : (q : Int) ∉ gone) {rest : List ℕ}
    (hrest : ∀ p ∈ rest, (p : Int) ∉ gone) :
    StateVector.closeGap (place gone q) (rest.map (place gone)) =
      rest.map (place (gone ++ [(q : Int)])) := by
  unfold StateVector.closeGap
  rw [List.map_map]
  refine List.map_congr_left fun p hp => ?_
  -- positions of live qudits are ordered as the qudits are, so the same ones are moved down
  have hiff : place gone q < place gone p ↔ q < p := by
    refine ⟨fun h => ?_, place_lt hq⟩
    by_contra hle
    rcases Nat.lt_or_eq_of_le (Nat.not_lt.mp hle) with hlt | rfl
    · exact Nat.lt_asymm h (place_lt (hrest p hp) hlt)
    · exact Nat.lt_irrefl _ h
  rw [place_append hq]
  simp only [Function.comp_apply, hiff]

/-- Measuring positions one after the other succeeds, and what is left has all their digits found. -/
theorem run_measureEach (hd : 0 < d) {targets : List ℕ} (h : Narrows d n psi found product state)
    (hrange : ∀ q ∈ targets, q < n) (hlive : ∀ q ∈ targets, (q : Int) ∉ found.map Prod.fst)
    (hnodup : targets.Nodup) (draws : Draws ℝ) :
    ∃ outcomes probability rest draws',
      (StateVector.measureEach (S := ℝ) d (targets.map (place (found.map Prod.fst))) state
        product).run.run draws = (.ok (outcomes, probability, rest), draws') ∧
      outcomes.length = targets.length ∧
      Narrows d n psi (found ++ foundAt targets outcomes) probability rest := by
  -- each target starts from what was found, multiplied and left by the ones before it
  induction targets generalizing found product state draws with
  | nil =>
    refine ⟨[], product, state, draws, ?_, rfl, ?_⟩
    · rw [List.map_nil, StateVector.measureEach]
      rfl
    · rw [foundAt, List.zip_nil_left, List.map_nil, List.append_nil]
      exact h
  | cons q targets ih =>
    obtain ⟨hq, htargets⟩ := List.nodup_cons.mp hnodup
    obtain ⟨hqrange, hrange⟩ := List.forall_mem_cons.mp hrange
    obtain ⟨hqlive, hlive⟩ := List.forall_mem_cons.mp hlive
    obtain ⟨v, weight, left, hone, hleft⟩ := h.run_measureOne hd hqrange hqlive draws
    -- the later targets are still live when the first one has left
    have hstill : ∀ p ∈ targets, (p : Int) ∉ (found ++ [((q : Int), v)]).map Prod.fst := by
      intro p hp
      rw [keys_append, List.mem_append, List.mem_singleton, Int.ofNat_inj]
      rintro (hgone | rfl)
      · exact hlive p hp hgone
      · exact hq hp
    obtain ⟨outcomes, probability, rest, draws', hrun, hlength, hrest⟩ :=
      ih hleft hrange hstill htargets draws.advance
    refine ⟨v :: outcomes, probability, rest, draws', ?_, ?_, ?_⟩
    · rw [keys_append] at hrun
      rw [List.map_cons, StateVector.measureEach, Sampling.run_bind, hone]
      dsimp only
      rw [closeGap_map_place hqlive hlive, Sampling.run_bind, hrun]
      rfl
    · rw [List.length_cons, List.length_cons, hlength]
    · rwa [foundAt_cons, ← List.append_assoc]

end Narrows

namespace StateVector

variable {targets targets' outcomes outcomes' : List ℕ} {state rest rest' : StateVector ℝ}
  {probability probability' : ℝ}

/-! ## Positions of a register -/

/-- What is found at positions of a state one after the other: a digit at each of them, with the weight
of the amplitudes that have all these digits as its probability, and with a state of norm one that has
these amplitudes, divided by the root of the probability. -/
structure MeasuredAs (d n : ℕ) (state : StateVector ℝ) (targets outcomes : List ℕ) (probability : ℝ)
    (rest : StateVector ℝ) : Prop where
  /-- There is an outcome for each position. -/
  length_eq : outcomes.length = targets.length
  /-- The outcomes are digits. -/
  outcome_lt : ∀ v ∈ outcomes, v < d
  /-- The probability is the weight of the amplitudes with the digits found. -/
  probability_eq : probability =
    ∑ x ∈ range (d ^ n) with ∀ pair ∈ targets.zip outcomes, digit d pair.1 x = pair.2,
      Complex.normSq (state.amplitude x).toComplex
  /-- The measured qudits have left. -/
  size_eq : rest.size = d ^ (n - targets.length)
  /-- The state that remains is normalized. -/
  norm_eq : rest.norm = 1
  /-- Its amplitudes are those with the digits found, divided by the root of the probability. -/
  amplitude_eq : ∀ y < d ^ (n - targets.length), ∃ x, Extends d n targets y x ∧
    (∀ pair ∈ targets.zip outcomes, digit d pair.1 x = pair.2) ∧
      (rest.amplitude y).toComplex = (state.amplitude x).toComplex / (√probability : ℝ)

/-- What all positions have narrowed a state to is what is found at them. -/
theorem measuredAs_of_narrows (hd : 0 < d) (htargets : targets ≠ []) (hnodup : targets.Nodup)
    (hrange : ∀ q ∈ targets, q < n) (hlength : outcomes.length = targets.length)
    (h : Narrows d n (fun x => (state.amplitude x).toComplex) (foundAt targets outcomes) probability
      rest) : MeasuredAs d n state targets outcomes probability rest := by
  have hkeys := keys_foundAt hlength
  have hfound := foundAt_ne_nil htargets hlength
  have hplace : place ((foundAt targets outcomes).map Prod.fst) n = n - targets.length :=
    hkeys ▸ place_targets (targetList_natCast htargets hnodup hrange)
  refine ⟨hlength, fun v hv => ?_, ?_, ?_, norm_eq_one (h.weight_eq hfound), fun y hy => ?_⟩
  · have hzip : (targets.zip outcomes).map Prod.snd = outcomes := List.map_snd_zip hlength.le
    rw [← hzip] at hv
    obtain ⟨pair, hpair, rfl⟩ := List.mem_map.mp hv
    exact h.findings.digit_lt _ (List.mem_map_of_mem hpair)
  · rw [h.product_eq hfound, foundWeight]
    exact sum_congr (filter_congr fun x _ => consistent_foundAt) fun _ _ => rfl
  · rw [h.restricts.size_eq, hplace]
  · have hconsistent := consistent_fullIndex hd h.findings y
    refine ⟨fullIndex d n (foundAt targets outcomes) y, extends_fullIndex hd h.findings hkeys y,
      consistent_foundAt.mp hconsistent, ?_⟩
    rw [h.restricts.amplitude_eq y (hplace ▸ hy)]
    unfold narrowed
    rw [if_pos hconsistent]

/-- Measuring positions of a register one after the other succeeds for a state with a weight. -/
theorem exists_measuredAs (hd : 2 ≤ d) (hsize : state.size = d ^ n)
    (hweight : ∑ x ∈ range (d ^ n), Complex.normSq (state.amplitude x).toComplex ≠ 0)
    (htargets : targets ≠ []) (hnodup : targets.Nodup) (hrange : ∀ q ∈ targets, q < n)
    (checking : Bool) (draws : Draws ℝ) :
    ∃ outcomes probability rest draws',
      (measureSequential (S := ℝ) checking state (targets.map .nat) (.nat d)).run.run draws =
        (.ok (outcomes, probability, rest), draws') ∧
      MeasuredAs d n state targets outcomes probability rest := by
  have hpos : 0 < d := by omega
  have hchance : 0 < (chanceWeight state : ℝ) := by
    refine lt_of_le_of_ne (chanceWeight_nonneg state) (Ne.symm ?_)
    rwa [chanceWeight_real, hsize]
  obtain ⟨outcomes, probability, rest, draws', hrun, hlength, hnarrows⟩ :=
    (Narrows.start hpos hsize hchance).run_measureEach hpos hrange (fun _ _ => List.not_mem_nil) hnodup
      draws
  rw [foundAt, List.nil_append] at hnarrows
  have hmeasured := measuredAs_of_narrows hpos htargets hnodup hrange hlength hnarrows
  refine ⟨outcomes, probability, rest, draws', ?_, hmeasured⟩
  have hplaces : targets.map (place (([] : List (Int × ℕ)).map Prod.fst)) = targets :=
    (List.map_congr_left fun q _ => place_nil q).trans (List.map_id' _)
  rw [hplaces] at hrun
  -- the check of the norm accepts what is left
  have hchecked := checked_of_weight checking
    (hnarrows.weight_eq (foundAt_ne_nil htargets hlength))
  rw [← map_int_natCast, measureSequential_eq checking hd hsize
    (targetList_natCast htargets hnodup hrange), map_toNat_natCast, Sampling.run_bind, hrun]
  dsimp only
  rw [hchecked]
  rfl

/-- What is found at the same positions with the same digits is the same, whatever the order. -/
theorem MeasuredAs.unique (h : MeasuredAs d n state targets outcomes probability rest)
    (h' : MeasuredAs d n state targets' outcomes' probability' rest')
    (htargets : targets'.Perm targets)
    (hpairs : (targets'.zip outcomes').Perm (targets.zip outcomes)) :
    probability' = probability ∧ rest' = rest := by
  have hdigits (x : ℕ) : (∀ pair ∈ targets'.zip outcomes', digit d pair.1 x = pair.2) ↔
      ∀ pair ∈ targets.zip outcomes, digit d pair.1 x = pair.2 := by
    simp only [hpairs.mem_iff]
  have hprobability : probability' = probability := by
    rw [h.probability_eq, h'.probability_eq]
    exact sum_congr (filter_congr fun x _ => hdigits x) fun _ _ => rfl
  have hlength := htargets.length_eq
  refine ⟨hprobability, ext_amplitude (by rw [h.size_eq, h'.size_eq, hlength]) fun y hy => ?_⟩
  rw [h'.size_eq] at hy
  obtain ⟨x', hextends', htarget', hamplitude'⟩ := h'.amplitude_eq y hy
  obtain ⟨x, hextends, htarget, hamplitude⟩ := h.amplitude_eq y (hlength ▸ hy)
  -- both amplitudes are those at one index, since each of its digits is determined
  have hsame : x' = x := by
    refine eq_of_digits hextends'.lt hextends.lt fun q hq => ?_
    by_cases hmem : q ∈ targets
    · have hzip : (targets.zip outcomes).map Prod.fst = targets := List.map_fst_zip h.length_eq.ge
      rw [← hzip] at hmem
      obtain ⟨pair, hpair, rfl⟩ := List.mem_map.mp hmem
      rw [htarget pair hpair, (hdigits x').mp htarget' pair hpair]
    · rw [hextends.digit_eq q hq hmem, hextends'.digit_eq q hq (mt htargets.mem_iff.mp hmem)]
      simp only [htargets.mem_iff]
  apply Amplitude.toComplex_injective
  rw [hamplitude', hamplitude, hsame, hprobability]

/-- Positions of a state with a weight, different and at least one, are measured one after the other
without a fault. -/
theorem measureSequential_outcomes (hd : 2 ≤ d) (hsize : state.size = d ^ n)
    (hweight : ∑ x ∈ range (d ^ n), Complex.normSq (state.amplitude x).toComplex ≠ 0)
    (htargets : targets ≠ []) (hnodup : targets.Nodup) (hrange : ∀ q ∈ targets, q < n)
    (checking : Bool) (draws : Draws ℝ) :
    ∃ outcomes probability rest draws',
      (measureSequential (S := ℝ) checking state (targets.map .nat) (.nat d)).run.run draws =
        (.ok (outcomes, probability, rest), draws') ∧
      MeasuredAs d n state targets outcomes probability rest ∧
      ∀ (checking' : Bool) (targets' : List ℕ) (draws₁ draws₁' : Draws ℝ) (outcomes' : List ℕ)
          (probability' : ℝ) (rest' : StateVector ℝ), targets'.Perm targets →
        (measureSequential (S := ℝ) checking' state (targets'.map .nat) (.nat d)).run.run draws₁ =
          (.ok (outcomes', probability', rest'), draws₁') →
        (targets'.zip outcomes').Perm (targets.zip outcomes) →
          probability' = probability ∧ rest' = rest := by
  obtain ⟨outcomes, probability, rest, draws', hrun, hmeasured⟩ :=
    exists_measuredAs hd hsize hweight htargets hnodup hrange checking draws
  refine ⟨outcomes, probability, rest, draws', hrun, hmeasured, ?_⟩
  intro checking' targets' draws₁ draws₁' outcomes' probability' rest' hperm hother hpairs
  obtain ⟨_, _, _, _, hrun', hmeasured'⟩ := exists_measuredAs hd hsize hweight
    (fun hnil => htargets (List.perm_nil.mp (hnil ▸ hperm.symm))) (hperm.nodup_iff.mpr hnodup)
    (fun q hq => hrange q (hperm.mem_iff.mp hq)) checking' draws₁
  -- a run has one result
  cases hrun'.symm.trans hother
  exact hmeasured.unique hmeasured' hperm hpairs

/-- On three qutrits in a state that is not normalized, the highest and the lowest one are measured, and
a normalized state of the middle one is left. -/
theorem measureSequential_outcomes_qutrits :
    let state : StateVector ℝ := build 27 fun x => if x = 14 then ⟨2, 0⟩ else 0
    state.size = 3 ^ 3 ∧ ∑ x ∈ range (3 ^ 3), Complex.normSq (state.amplitude x).toComplex ≠ 0 ∧
      [2, 0].Nodup ∧ (∀ q ∈ [2, 0], q < 3) ∧
      ∃ outcomes probability rest draws',
        (measureSequential (S := ℝ) true state ([2, 0].map .nat) (.nat 3)).run.run ⟨0, [], 0⟩ =
          (.ok (outcomes, probability, rest), draws') ∧
        outcomes.length = 2 ∧ rest.size = 3 ∧ rest.norm = 1 := by
  intro state
  have hsize : state.size = 3 ^ 3 := size_build _ _
  have hweights : ∀ x ∈ range (3 ^ 3), Complex.normSq (state.amplitude x).toComplex =
      if x = 14 then 4 else 0 := by
    intro x hx
    have hstate : state.amplitude x = if x = 14 then ⟨2, 0⟩ else 0 :=
      amplitude_build _ (mem_range.mp hx)
    rw [hstate]
    split
    · rw [Complex.normSq_apply]
      show (2 : ℝ) * 2 + 0 * 0 = 4
      norm_num
    · rw [Amplitude.toComplex_zero, Complex.normSq_zero]
  have hweight : ∑ x ∈ range (3 ^ 3), Complex.normSq (state.amplitude x).toComplex ≠ 0 := by
    rw [sum_congr rfl hweights, sum_ite_eq', if_pos (by decide)]
    norm_num
  have hnodup : [2, 0].Nodup := by decide
  have hrange : ∀ q ∈ [2, 0], q < 3 := by decide
  refine ⟨hsize, hweight, hnodup, hrange, ?_⟩
  obtain ⟨outcomes, probability, rest, draws', hrun, hmeasured, -⟩ :=
    measureSequential_outcomes (by decide) hsize hweight (List.cons_ne_nil _ _) hnodup hrange true
      ⟨0, [], 0⟩
  exact ⟨outcomes, probability, rest, draws', hrun, hmeasured.length_eq, hmeasured.size_eq,
    hmeasured.norm_eq⟩

end StateVector

end QuditSim
