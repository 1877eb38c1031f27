import Mathlib.Algebra.BigOperators.Field
import QuditSim.Proofs.Engine.Isometry

/-!
# Weights of states

Over the real numbers, the weight of a state is that of the register that it is a state of. What a
program draws from are weights of branches of a state, and if the branches have the weight of the
state together, an index is drawn and its branch can be made a state of weight one again.

- `Restricts.chanceWeight_eq`: the weight of a state is that of the full register.
- `Engine.chanceWeight_total`: acts that keep the weight of the full register keep it.
- `Trajectory.sum_chanceWeight_branchesOf`, `StateVector.sum_digitWeights` and
  `StateVector.sum_columnWeights`: the branches of a channel, of the digits at a position and of the
  columns of a unitary basis have the weight of the state together.
  `Trajectory.abs_sum_chanceWeight_branchesOf_sub_le` is it for a channel that keeps the trace up to
  an error.
- `StateVector.weight_of_sampleIndex` is what follows for the branch that is drawn.
-/

open Finset

namespace QuditSim

open Layout

namespace StateVector

/-! ## States of weight one -/

/-- The weight of a state is not negative. -/
theorem chanceWeight_nonneg (state : StateVector ℝ) : 0 ≤ (chanceWeight state : ℝ) := by
  rw [chanceWeight_real]
  exact sum_nonneg fun x _ => Complex.normSq_nonneg _

theorem norm_eq_one {state : StateVector ℝ} (h : (chanceWeight state : ℝ) = 1) :
    state.norm = 1 := by
  rw [norm_real, ← chanceWeight_real, h, Real.sqrt_one]

/-- The check of norms accepts a state of weight one. -/
theorem assertNormalized_of_weight {state : StateVector ℝ} (h : (chanceWeight state : ℝ) = 1) :
    state.assertNormalized normTolerance = .ok () := by
  have hnonneg : 0 ≤ (normTolerance : Written ℝ).value := by
    show (0 : ℝ) ≤ 1e-6
    norm_num
  rw [assertNormalized_real state hnonneg, norm_eq_one h, sub_self, abs_zero]
  exact hnonneg

theorem checked_of_weight (checking : Bool) {state : StateVector ℝ}
    (h : (chanceWeight state : ℝ) = 1) : state.checked checking = .ok state := by
  unfold checked
  rw [assertNormalized_of_weight h]
  split <;> rfl

/-- A state divided by the root of its weight has weight one. -/
theorem chanceWeight_divRoot {state : StateVector ℝ} (h : 0 < (chanceWeight state : ℝ)) :
    (chanceWeight (state.divRoot (chanceWeight state : ℝ)) : ℝ) = 1 := by
  have hterm (x : ℕ) : Complex.normSq
      ((state.divRoot (chanceWeight state : ℝ)).amplitude x).toComplex =
        Complex.normSq (state.amplitude x).toComplex / (chanceWeight state : ℝ) := by
    rw [amplitude_divRoot_real, Complex.normSq_div, Complex.normSq_ofReal,
      Real.mul_self_sqrt h.le]
  rw [chanceWeight_real, size_divRoot, sum_congr rfl fun x _ => hterm x, ← sum_div,
    ← chanceWeight_real, div_self h.ne']

/-! ## Drawing a branch -/

section Branches

variable {branches : List (StateVector ℝ)}
  (hsum : (branches.map fun branch => (chanceWeight branch : ℝ)).sum = 1)

include hsum

/-- From branches that have weight one together, one is drawn. -/
theorem exists_sampleIndex_of_sum (u : ℝ) :
    ∃ j, sampleIndex (branches.map fun branch => (chanceWeight branch : ℝ)) u = .ok j := by
  refine sampleIndex_eq_ok (fun w hw => ?_) ?_ u
  · obtain ⟨branch, -, rfl⟩ := List.mem_map.mp hw
    exact chanceWeight_nonneg branch
  · rw [hsum]
    exact one_pos

/-- The branch that is drawn has a weight that is positive and at most one, and divided by its root
it is a state of weight one. -/
theorem weight_of_sampleIndex {u : ℝ} {j : ℕ}
    (h : sampleIndex (branches.map fun branch => (chanceWeight branch : ℝ)) u = .ok j) :
    let branch := branches.getD j #[]
    (branches.map fun branch => (chanceWeight branch : ℝ)).getD j 0 = chanceWeight branch ∧
      0 < (chanceWeight branch : ℝ) ∧ (chanceWeight branch : ℝ) ≤ 1 ∧
        (chanceWeight (branch.divRoot (chanceWeight branch : ℝ)) : ℝ) = 1 := by
  intro branch
  have hlt : j < branches.length := by simpa using lt_of_sampleIndex h
  have hbranch : branch = branches[j] := by simp [branch, hlt]
  have hweight : (branches.map fun branch => (chanceWeight branch : ℝ)).getD j 0 =
      chanceWeight branch := by simp [hbranch, hlt]
  have hpos : 0 < (chanceWeight branch : ℝ) := hweight ▸ pos_of_sampleIndex h
  -- a weight is at most the sum of all of them
  have hle : (chanceWeight branch : ℝ) ≤ 1 := by
    rw [← hsum]
    refine List.single_le_sum (fun w hw => ?_) _ ?_
    · obtain ⟨other, -, rfl⟩ := List.mem_map.mp hw
      exact chanceWeight_nonneg other
    · rw [hbranch]
      exact List.mem_map_of_mem (List.getElem_mem hlt)
  exact ⟨hweight, hpos, hle, chanceWeight_divRoot hpos⟩

end Branches

section Families

variable {k : ℕ} {branch : ℕ → StateVector ℝ}
  (hsum : ((List.range k).map fun j => (chanceWeight (branch j) : ℝ)).sum = 1)

include hsum

/-- From branches in a range that have weight one together, one is drawn, and what holds of a branch
that is drawn holds of it. -/
theorem sampleIndex_of_sum (u : ℝ) :
    (∃ j, sampleIndex ((List.range k).map fun j => (chanceWeight (branch j) : ℝ)) u = .ok j) ∧
      ∀ j, sampleIndex ((List.range k).map fun j => (chanceWeight (branch j) : ℝ)) u = .ok j →
        0 < (chanceWeight (branch j) : ℝ) ∧ (chanceWeight (branch j) : ℝ) ≤ 1 ∧
          (chanceWeight ((branch j).divRoot (chanceWeight (branch j) : ℝ)) : ℝ) = 1 := by
  have hmap : (List.range k).map (fun j => (chanceWeight (branch j) : ℝ)) =
      ((List.range k).map branch).map fun branch => (chanceWeight branch : ℝ) := by
    rw [List.map_map]
    rfl
  rw [hmap] at hsum ⊢
  refine ⟨exists_sampleIndex_of_sum hsum u, fun j hj => ?_⟩
  have hlt : j < k := by simpa using lt_of_sampleIndex hj
  have hdrawn := weight_of_sampleIndex hsum hj
  rw [getD_map_range _ hlt] at hdrawn
  exact hdrawn.2

end Families

end StateVector

/-! ## Weights in the full register -/

section Registers

variable {d n : ℕ} {state : StateVector ℝ}

/-- The weight of a state of the live qudits is that of the full register. -/
theorem Restricts.chanceWeight_eq {found : List (Int × ℕ)} {psi : ℕ → ℂ} (hd : 0 < d)
    (h : Findings d n found) (hrel : Restricts d n found psi state) :
    (StateVector.chanceWeight state : ℝ) = FullRun.total d n psi := by
  unfold FullRun.total
  rw [sum_fullIndex hd h, StateVector.chanceWeight_real, hrel.size_eq]
  · exact sum_congr rfl fun y hy => by rw [hrel.amplitude_eq y (mem_range.mp hy)]
  · intro x hx hnot
    rw [hrel.zero_off x hx hnot, Complex.normSq_zero]

/-- Nothing found before, a state is its own full register. -/
theorem Restricts.self (hd : 0 < d) (hsize : state.size = d ^ n) :
    Restricts d n [] (fun x => (state.amplitude x).toComplex) state where
  size_eq := by
    rw [List.map_nil, place_nil]
    exact hsize
  amplitude_eq y hy := by
    rw [List.map_nil, place_nil] at hy
    rw [fullIndex_nil hd hy]
  zero_off x _ hnot := absurd (fun _ hf => (nomatch hf)) hnot

/-- An act on live qudits that keeps the weight of the full register keeps that of the state. -/
theorem Engine.chanceWeight_total (hd : 2 ≤ d) {gone : List Int} (hnodup : gone.Nodup)
    (hrange : ∀ q ∈ gone, InRange n q) (hsize : state.size = d ^ place gone n) {a : Act ℝ}
    (hfit : a.Fits d n) (hlive : ∀ q ∈ a.qudits, q ∉ gone)
    (hkeeps : FullRun.Isometric d n (FullRun.mapOf d a)) :
    (StateVector.chanceWeight ((a.rename (seat gone)).total d state) : ℝ) =
      StateVector.chanceWeight state := by
  have hpos : 0 < d := by omega
  have hfindings := findings_zeros hpos hnodup hrange
  rw [← keys_zeros gone] at hsize
  obtain ⟨psi, hrel⟩ := exists_restricts hpos hfindings hsize
  have hacted := hrel.act hpos hfindings hfit (by rwa [keys_zeros])
  rw [FullRun.act_eq_mapOf hd hfit, keys_zeros] at hacted
  rw [hacted.chanceWeight_eq hpos hfindings, hkeeps, hrel.chanceWeight_eq hpos hfindings]

/-! ## Weights of branches -/

namespace StateVector

/-- The state in which all digits are zero has weight one. -/
theorem chanceWeight_zero (hd : 0 < d) (n : ℕ) :
    (chanceWeight (zero n d : StateVector ℝ) : ℝ) = 1 := by
  have hpos : 0 < d ^ n := Nat.pow_pos hd
  rw [(Restricts.start hd n).chanceWeight_eq hd (.nil _ _), FullRun.total,
    sum_eq_single_of_mem 0 (mem_range.mpr hpos) fun x _ hx => by simp [hx], if_pos rfl,
    Complex.normSq_one]

/-- The digits at a position have the weight of the state together. -/
theorem sum_digitWeights (hd : 0 < d) (hsize : state.size = d ^ n) {p : ℕ} (hp : p < n) :
    (digitWeights d p state : List ℝ).sum = chanceWeight state := by
  have hrel := Restricts.self hd hsize
  have hfindings : Findings d n [] := .nil d n
  have hq : InRange n (p : Int) := ⟨Int.natCast_nonneg p, Int.ofNat_lt.mpr hp⟩
  have hweights : (digitWeights d p state : List ℝ) = (List.range (d ^ [p].length)).map
      (FullRun.weight d n [p] fun x => (state.amplitude x).toComplex) := by
    rw [List.length_singleton, pow_one]
    refine List.map_congr_left fun v hv => ?_
    have hmeasured := hrel.measured hd hfindings hq List.not_mem_nil (List.mem_range.mp hv)
    rw [List.map_nil, place_nil] at hmeasured
    exact hmeasured.1
  rw [hweights, FullRun.sum_weights hd, ← hrel.chanceWeight_eq hd hfindings]

/-- A column is found with the weight of its number after the adjoint of the basis. -/
theorem columnWeights_eq (hd : 0 < d) (hsize : state.size = d ^ n) {targets : List Int}
    (htargets : TargetList n targets) {basis : Operator ℝ}
    (hbasis : basis.shape = [d ^ targets.length, d ^ targets.length]) :
    (columnWeights d n basis (targets.map Int.toNat) state : List ℝ) =
      (List.range (d ^ (targets.map Int.toNat).length)).map
        (FullRun.weight d n (targets.map Int.toNat)
          (FullRun.actOn d (fun i b => (starRingEnd ℂ) (basis.entry b i).toComplex)
            (targets.map Int.toNat) fun x => (state.amplitude x).toComplex)) := by
  have hrel := Restricts.self hd hsize
  have hfindings : Findings d n [] := .nil d n
  have hcolumns := Tensor.columns_of_shape hbasis
  have hplaces : (targets.map fun t => place ([] : List Int) t.toNat) = targets.map Int.toNat :=
    List.map_congr_left fun t _ => place_nil _
  unfold columnWeights
  rw [hcolumns, List.length_map]
  refine List.map_congr_left fun j hj => ?_
  obtain ⟨hbranch, hamplitude⟩ := hrel.branchOfColumn hd hfindings htargets
    (fun _ _ => List.not_mem_nil) (List.mem_range.mp hj) basis
  have hcollapse := Restricts.collapse hd hfindings htargets (fun _ _ => List.not_mem_nil)
    (List.mem_range.mp hj) (fun x _ hnot => absurd (fun _ hf => absurd hf List.not_mem_nil) hnot)
    hbranch hamplitude
  rw [List.map_nil, place_nil, hplaces] at hcollapse
  exact hcollapse.1

/-- The columns of a unitary basis have the weight of the state together. -/
theorem sum_columnWeights (hd : 2 ≤ d) (hsize : state.size = d ^ n) {targets : List Int}
    (htargets : TargetList n targets) {basis : Operator ℝ}
    (hbasis : basis.shape = [d ^ targets.length, d ^ targets.length]) (hunitary : basis.Unitary) :
    (columnWeights d n basis (targets.map Int.toNat) state : List ℝ).sum = chanceWeight state := by
  have hpos : 0 < d := by omega
  let adjoint (i b : ℕ) : ℂ := (starRingEnd ℂ) (basis.entry b i).toComplex
  have hkeeps : FullRun.Isometric d n (FullRun.matrixOn d adjoint (targets.map Int.toNat)) := by
    refine FullRun.isometric_matrixOn hd (FullRun.nodup_places htargets)
      (FullRun.places_lt htargets.inRange) ?_
    rw [List.length_map]
    exact ((Operator.unitary_iff hbasis).mp hunitary).adjoint
  rw [columnWeights_eq hpos hsize htargets hbasis, FullRun.sum_weights hpos,
    (Restricts.self hpos hsize).chanceWeight_eq hpos (.nil d n)]
  exact hkeeps _

/-- What an operator makes of a state at a position is a state of the same register. -/
theorem size_branchOn (hsize : state.size = d ^ n) (p : ℕ) (op : Operator ℝ) :
    (branchOn d op p state).size = d ^ n :=
  (size_build _ _).trans hsize

/-- The amplitudes that an operator makes of a state at a position are those that it makes of the
register. -/
theorem amplitude_branchOn (hd : 0 < d) (hsize : state.size = d ^ n) (p : ℕ) (op : Operator ℝ)
    {x : ℕ} (hx : x < d ^ n) :
    ((branchOn d op p state).amplitude x).toComplex =
      FullRun.operatorOn d op [p] (fun x => (state.amplitude x).toComplex) x := by
  unfold branchOn
  rw [amplitude_build _ (hsize ▸ hx), Tensor.toComplex_inner]
  show _ = ∑ b ∈ range (d ^ 1), (op.entry (readDigits d [p] x) b).toComplex *
    (state.amplitude (placeDigits d [p] b x)).toComplex
  rw [pow_one]
  refine sum_congr rfl fun b hb => ?_
  have hread : readDigits d [p] x = digit d p x := by simp
  -- taking the digit out and putting another one in replaces it
  have hplace : placeDigits d [p] b x = insertDigit d p b (removeDigit d p x) := by
    rw [placeDigits_cons, placeDigits_nil, List.length_nil, pow_zero, Nat.div_one,
      Nat.mod_eq_of_lt (mem_range.mp hb), replaceDigit_eq_insertDigit hd]
  rw [hread, hplace]

/-- The vector that an operator makes of a state at a position has the weight that the operator
gives it in the register. -/
theorem chanceWeight_branchOn (hd : 0 < d) (hsize : state.size = d ^ n) (p : ℕ)
    (op : Operator ℝ) :
    (chanceWeight (branchOn d op p state) : ℝ) =
      FullRun.total d n (FullRun.operatorOn d op [p] fun x => (state.amplitude x).toComplex) := by
  unfold FullRun.total
  rw [chanceWeight_real, size_branchOn hsize]
  exact sum_congr rfl fun x hx =>
    congrArg Complex.normSq (amplitude_branchOn hd hsize p op (mem_range.mp hx))

end StateVector

/-! ## Channels -/

/-- The entries of the sum of the products of operators with their adjoints. -/
theorem Channel.toComplex_entry_total {ops : List (Operator ℝ)}
    (hops : ∀ op ∈ ops, op.shape = [d, d]) {a b : ℕ} (ha : a < d) (hb : b < d) :
    ((Channel.total d ops).entry a b).toComplex = (ops.map fun op =>
      ∑ i ∈ range d, (starRingEnd ℂ) (op.entry i a).toComplex * (op.entry i b).toComplex).sum := by
  -- the products are added one after the other to any sum
  have hfold (sum : Operator ℝ) (hsum : sum.shape = [d, d]) :
      ((ops.foldl (fun sum op => sum.add (op.adjoint * op)) sum).entry a b).toComplex =
        (sum.entry a b).toComplex + (ops.map fun op => ∑ i ∈ range d,
          (starRingEnd ℂ) (op.entry i a).toComplex * (op.entry i b).toComplex).sum := by
    induction ops generalizing sum with
    | nil => rw [List.foldl_nil, List.map_nil, List.sum_nil, add_zero]
    | cons op ops ih =>
      obtain ⟨hop, hops⟩ := List.forall_mem_cons.mp hops
      have hproduct : (op.adjoint * op).shape = [d, d] :=
        Tensor.shape_mul (Tensor.shape_adjoint hop) hop
      rw [List.foldl_cons, ih hops (sum.add (op.adjoint * op)) hsum,
        Tensor.entry_add hsum hproduct ha hb, Amplitude.toComplex_add,
        Operator.toComplex_entry_adjoint_mul hop ha hb, List.map_cons, List.sum_cons, add_assoc]
  unfold Channel.total
  rw [hfold _ rfl, Tensor.entry_matrix _ ha hb, Amplitude.toComplex_zero, zero_add]

/-- The products of the operators with their adjoints, entry by entry, over the places of the
operators. -/
theorem Channel.sum_products {ops : List (Operator ℝ)} (hops : ∀ op ∈ ops, op.shape = [d, d])
    {a b : ℕ} (ha : a < d) (hb : b < d) :
    ∑ k : Fin ops.length, ∑ i ∈ range d,
        (starRingEnd ℂ) (ops[k.1].entry i a).toComplex * (ops[k.1].entry i b).toComplex =
      ((Channel.total d ops).entry a b).toComplex := by
  rw [Channel.toComplex_entry_total hops ha hb]
  exact Fin.sum_univ_fun_getElem ops fun op => ∑ i ∈ range d,
    (starRingEnd ℂ) (op.entry i a).toComplex * (op.entry i b).toComplex

namespace Trajectory

/-- The branches of a channel have the weights that its operators give them in the register. -/
theorem sum_chanceWeight_branchesOf_eq {model : Trajectory ℝ} (hd : 0 < d)
    (hsize : state.size = d ^ n) (p : ℕ) :
    ((model.branchesOf d p state).map fun branch => (StateVector.chanceWeight branch : ℝ)).sum =
      ∑ k : Fin model.channel.ops.length, FullRun.total d n
        (FullRun.operatorOn d model.channel.ops[k.1] [p]
          fun x => (state.amplitude x).toComplex) := by
  unfold branchesOf
  rw [List.map_map, Fin.sum_univ_fun_getElem model.channel.ops fun op => FullRun.total d n
    (FullRun.operatorOn d op [p] fun x => (state.amplitude x).toComplex)]
  refine congrArg List.sum (List.map_congr_left fun op _ => ?_)
  show (StateVector.chanceWeight (StateVector.branchOn d (Rounding.round op) p state) : ℝ) = _
  rw [Tensor.round_real, StateVector.chanceWeight_branchOn hd hsize]

/-- The branches of a channel that keeps the trace have the weight of the state together. -/
theorem sum_chanceWeight_branchesOf {model : Trajectory ℝ} (hd : 2 ≤ d) (hsize : state.size = d ^ n)
    (hops : ∀ op ∈ model.channel.ops, op.shape = [d, d])
    (hpreserving : Channel.total d model.channel.ops = Tensor.identity d) {p : ℕ} (hp : p < n) :
    ((model.branchesOf d p state).map fun branch => (StateVector.chanceWeight branch : ℝ)).sum =
      StateVector.chanceWeight state := by
  have hpos : 0 < d := by omega
  -- the products of the operators of the channel with their adjoints sum to the identity
  have hfamily : ∀ a < d ^ [p].length, ∀ b < d ^ [p].length,
      ∑ k : Fin model.channel.ops.length, ∑ i ∈ range (d ^ [p].length),
        (starRingEnd ℂ) (model.channel.ops[k.1].entry i a).toComplex *
          (model.channel.ops[k.1].entry i b).toComplex = if a = b then 1 else 0 := by
    rw [List.length_singleton, pow_one]
    intro a ha b hb
    rw [Channel.sum_products hops ha hb, hpreserving, Operator.toComplex_entry_identity ha hb]
  rw [sum_chanceWeight_branchesOf_eq hpos hsize,
    (Restricts.self hpos hsize).chanceWeight_eq hpos (.nil d n)]
  exact FullRun.sum_total_matrixOn hd (List.nodup_singleton p) (List.forall_mem_singleton.mpr hp)
    univ hfamily _

/-- The branches of a channel that keeps the trace up to an error in each entry have the weight of
the state together up to that error, once for each digit. -/
theorem abs_sum_chanceWeight_branchesOf_sub_le {model : Trajectory ℝ} (hd : 2 ≤ d)
    (hsize : state.size = d ^ n) (hops : ∀ op ∈ model.channel.ops, op.shape = [d, d]) {ε : ℝ}
    (hnear : ∀ a < d, ∀ b < d, ‖((Channel.total d model.channel.ops).entry a b).toComplex -
      ((Tensor.identity d : Operator ℝ).entry a b).toComplex‖ ≤ ε) {p : ℕ} (hp : p < n) :
    |((model.branchesOf d p state).map fun branch => (StateVector.chanceWeight branch : ℝ)).sum -
        StateVector.chanceWeight state| ≤ d * ε * StateVector.chanceWeight state := by
  have hpos : 0 < d := by omega
  have hfamily : ∀ a < d ^ [p].length, ∀ b < d ^ [p].length,
      ‖(∑ k : Fin model.channel.ops.length, ∑ i ∈ range (d ^ [p].length),
        (starRingEnd ℂ) (model.channel.ops[k.1].entry i a).toComplex *
          (model.channel.ops[k.1].entry i b).toComplex) - if a = b then 1 else 0‖ ≤ ε := by
    rw [List.length_singleton, pow_one]
    intro a ha b hb
    rw [Channel.sum_products hops ha hb, ← Operator.toComplex_entry_identity ha hb]
    exact hnear a ha b hb
  have hbound := FullRun.abs_sum_total_matrixOn_sub_le (n := n) hd (List.nodup_singleton p)
    (List.forall_mem_singleton.mpr hp) univ hfamily fun x => (state.amplitude x).toComplex
  rw [List.length_singleton, pow_one] at hbound
  rw [sum_chanceWeight_branchesOf_eq hpos hsize,
    (Restricts.self hpos hsize).chanceWeight_eq hpos (.nil d n)]
  exact hbound

end Trajectory

end Registers

end QuditSim
