import QuditSim.Proofs.State.Axes

/-!
# The operator on positions of a register

An operator acts on the positions of a list as its product with the identity of the others does. This
module says so of every single amplitude, with the complex matrix of the operator, and of the whole
vector, as the computation on a tensor of which the axes are moved.

- `StateVector.appliedByAxes` moves the axes of the targets to the front, multiplies by the operator and
  moves the axes back. `StateVector.applyOn_eq_byAxes` says that this is the operation.
- `StateVector.apply_amplitude` is the operation on positions of a register: the amplitude at an index is
  the sum over the row of the operator that the target digits spell.
-/

open Finset

namespace QuditSim

namespace StateVector

variable {d n : ℕ}

section Axes

variable {R : Type} [Scalar R]

/-- The product of an operator and the moved amplitudes, which are read as a matrix of `block` rows and
`rest` columns. -/
def multiplyRows (block rest : ℕ) (op : Operator R) (moved : StateVector R) : StateVector R :=
  build moved.size fun z =>
    Tensor.inner (op.entry (z / rest)) (fun b => moved.amplitude (b * rest + z % rest)) block

/-- The state after an operator acted, with the axes of the targets moved to the front and back. -/
def appliedByAxes (d n : ℕ) (op : Operator R) (targets : List ℕ) (state : StateVector R) :
    StateVector R :=
  let order := axisOrder n targets
  restoreAxes d order <|
    multiplyRows (d ^ targets.length) (d ^ (n - targets.length)) op (moveAxes d order state)

/-- An operator acts as the computation with moved axes says. -/
theorem applyOn_eq_byAxes (hd : 2 ≤ d) {op : Operator R} {targets : List ℕ} {state : StateVector R}
    (hnodup : targets.Nodup) (hrange : ∀ q ∈ targets, q < n) (hsize : state.size = d ^ n) :
    applyOn d op targets state = appliedByAxes d n op targets state := by
  have hpos : 0 < d := by omega
  have horder := axisOrder_perm hnodup hrange
  -- no axes come before those of the targets
  have hfront : ([] ++ targets).Nodup := hnodup
  obtain ⟨others, hothers, hlength, hsplit⟩ := exists_readDigits_order (d := d) hfront hrange
  have hcolumn {x b : ℕ} (hx : x < d ^ n) (hb : b < d ^ targets.length) :=
    amplitude_moveAxes_column hd hfront hrange hothers hsplit hsize hx hb
  rw [List.length_nil, Nat.sub_zero] at hlength
  simp only [List.nil_append, readDigits_nil, Nat.zero_mul, Nat.zero_add] at hsplit hcolumn
  unfold appliedByAxes
  dsimp only
  rw [← hlength]
  set order := axisOrder n targets
  have hsizes : (moveAxes d order state).size = d ^ n := by rw [moveAxes, size_build, hsize]
  apply ext_amplitude
  · rw [applyOn, restoreAxes, multiplyRows, size_build, size_build, size_build, hsizes, hsize]
  intro x hx
  rw [applyOn, size_build] at hx
  have hxn : x < d ^ n := hsize ▸ hx
  have hz : readDigits d order x < (moveAxes d order state).size :=
    hsizes ▸ readDigits_order_lt hpos horder x
  have hrest : 0 < d ^ others.length := Nat.pow_pos hpos
  -- row and column of the index to which the axes of this one are moved
  have hrow : readDigits d order x / d ^ others.length = readDigits d targets x := by
    rw [hsplit, Nat.mul_comm, Nat.mul_add_div hrest, Nat.div_eq_of_lt (readDigits_lt hpos others x),
      Nat.add_zero]
  have hmod : readDigits d order x % d ^ others.length = readDigits d others x := by
    rw [hsplit, Nat.mul_comm, Nat.mul_add_mod, Nat.mod_eq_of_lt (readDigits_lt hpos others x)]
  rw [applyOn, amplitude_build _ hx, restoreAxes,
    amplitude_build _ (by rwa [multiplyRows, size_build, hsizes]), multiplyRows, amplitude_build _ hz,
    hrow, hmod]
  exact Tensor.inner_congr (fun _ _ => rfl) fun b hb => (hcolumn hxn hb).symm

end Axes

/-- An operator acts on different positions of a register, at least one, without a fault. -/
theorem apply_targets (hd : 2 ≤ d) {op : Operator ℝ} {targets : List ℕ} {state : StateVector ℝ}
    (hsize : state.size = d ^ n) (htargets : targets ≠ []) (hnodup : targets.Nodup)
    (hrange : ∀ q ∈ targets, q < n) (hop : op.shape = [d ^ targets.length, d ^ targets.length]) :
    state.apply false op (targets.map .nat) (.nat d) = .ok (applyOn d op targets state) := by
  rw [← map_int_natCast, apply_eq hd hsize (targetList_natCast htargets hnodup hrange)
    (by rwa [List.length_map]), map_toNat_natCast]
  rfl

/-- On different positions of a register, at least one, an operator acts without a fault, and the state
becomes the one that the computation with moved axes gives: each amplitude becomes the sum over the row
that its target digits spell, with the amplitudes that have the digits of the columns at the targets. -/
theorem apply_amplitude (hd : 2 ≤ d) {op : Operator ℝ} {targets : List ℕ} {state : StateVector ℝ}
    (hsize : state.size = d ^ n) (htargets : targets ≠ []) (hnodup : targets.Nodup)
    (hrange : ∀ q ∈ targets, q < n) (hop : op.shape = [d ^ targets.length, d ^ targets.length]) :
    ∃ out, state.apply false op (targets.map .nat) (.nat d) = .ok out ∧
      out = appliedByAxes d n op targets state ∧ out.size = d ^ n ∧
      ∀ x < d ^ n, ∃ row source, Summed d n targets x row source ∧
        (out.amplitude x).toComplex =
          ∑ b, op.matrix (d ^ targets.length) row b * (state.amplitude (source b)).toComplex := by
  have happly := apply_targets hd hsize htargets hnodup hrange hop
  refine ⟨_, happly, applyOn_eq_byAxes hd hnodup hrange hsize,
    by rw [applyOn, size_build, hsize], fun x hx => ?_⟩
  refine ⟨_, _, (summed_iff hd hnodup hrange hx).mpr ⟨rfl, rfl⟩, ?_⟩
  rw [applyOn, amplitude_build _ (hsize ▸ hx), Tensor.toComplex_inner, sum_range]
  rfl

/-- On three qubits, with the lowest one as the first target and the highest one as the second: the
operator lowers the number that the two spell, so the amplitude of `|1, 1, 1⟩` is taken to `|0, 1, 1⟩`. -/
theorem apply_amplitude_qubits :
    let op : Operator ℝ := Tensor.matrix 4 4 fun i j => if i + 1 = j then 1 else 0
    let state : StateVector ℝ := basisState 8 7
    state.size = 2 ^ 3 ∧ [0, 2].Nodup ∧ (∀ q ∈ [0, 2], q < 3) ∧
      op.shape = [2 ^ [0, 2].length, 2 ^ [0, 2].length] ∧
      ∃ out, state.apply false op ([0, 2].map .nat) (.nat 2) = .ok out ∧
        (out.amplitude 3).toComplex = 1 := by
  intro op state
  have hsize : state.size = 2 ^ 3 := size_build _ _
  have hnodup : [0, 2].Nodup := by decide
  have hrange : ∀ q ∈ [0, 2], q < 3 := by decide
  have hop : op.shape = [2 ^ [0, 2].length, 2 ^ [0, 2].length] := rfl
  refine ⟨hsize, hnodup, hrange, hop, ?_⟩
  obtain ⟨out, hout, -, -, hamplitude⟩ :=
    apply_amplitude (by decide) hsize (List.cons_ne_nil _ _) hnodup hrange hop
  refine ⟨out, hout, ?_⟩
  obtain ⟨row, source, hsummed, hvalue⟩ := hamplitude 3 (by decide)
  obtain ⟨rfl, rfl⟩ := (summed_iff (by decide) hnodup hrange (by decide)).mp hsummed
  rw [hvalue]
  refine (Fin.sum_univ_four _).trans ?_
  -- the row of the two digits meets the indices with other digits in their places
  show (op.entry 2 0).toComplex * (state.amplitude 2).toComplex +
    (op.entry 2 1).toComplex * (state.amplitude 6).toComplex +
    (op.entry 2 2).toComplex * (state.amplitude 3).toComplex +
    (op.entry 2 3).toComplex * (state.amplitude 7).toComplex = 1
  have hentry : ∀ j < 4, op.entry 2 j = if 2 + 1 = j then 1 else 0 :=
    fun j hj => Tensor.entry_matrix _ (by decide) hj
  have hstate : ∀ y < 8, state.amplitude y = if y = 7 then 1 else 0 := fun y hy => amplitude_build _ hy
  rw [hentry 0 (by decide), hentry 1 (by decide), hentry 2 (by decide), hentry 3 (by decide),
    hstate 2 (by decide), hstate 6 (by decide), hstate 3 (by decide), hstate 7 (by decide)]
  simp

end StateVector

end QuditSim
