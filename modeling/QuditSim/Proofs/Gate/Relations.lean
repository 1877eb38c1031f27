import QuditSim.Proofs.Gate.Weyl
import QuditSim.Proofs.State.Composition
import QuditSim.Proofs.State.Shift

/-!
# Shift, clock and Fourier gate

The shift and the clock of a qudit commute up to a root of unity, and the Fourier gate takes one to
the other. The three gates are written down separately, so what they have to do with each other is
found out entry by entry.

- `Gate.fourier_mem_unitaryGroup`: the rows of the Fourier gate are orthonormal, because the powers
  of a quotient of two roots cancel.
- `Gate.clock_mul_rotation` and `Gate.fourier_mul_rotation` are the two relations, for complex
  matrices.
- `Gate.Relations` is what the gates satisfy as operators of the library, and `Gate.relations` that
  they do.
-/

open Finset Matrix

namespace QuditSim

/-- The matrix of the adjoint of an operator. -/
theorem Operator.matrix_adjoint {op : Operator ℝ} {k : ℕ} (hop : op.shape = [k, k]) :
    Operator.matrix op.adjoint k = (Operator.matrix op k)ᴴ := by
  ext i j
  exact Operator.toComplex_entry_adjoint hop i.isLt j.isLt

/-- An operator with a unitary matrix is unitary. -/
theorem Operator.unitary_of_mem {op : Operator ℝ} {k : ℕ} (hop : op.shape = [k, k])
    (h : Operator.matrix op k ∈ unitaryGroup (Fin k) ℂ) : op.Unitary := by
  have hadjoint := Tensor.shape_adjoint hop
  refine ⟨by simp [Tensor.isSquare, hop], ?_⟩
  rw [Tensor.columns_of_shape hop]
  refine Operator.eq_of_matrix_eq (Tensor.shape_mul hadjoint hop) rfl ?_
  rw [Operator.matrix_mul hadjoint hop, Operator.matrix_adjoint hop, Operator.matrix_identity]
  exact mem_unitaryGroup_iff'.mp h

namespace Gate

variable {d : ℕ}

/-! ## Roots and rotations -/

/-- A power of the root depends on the remainder of the exponent only. -/
theorem root_pow_mod (hd : d ≠ 0) (k : ℕ) : root d ^ (k % d) = root d ^ k :=
  (pow_eq_pow_mod k (isPrimitiveRoot_root hd).pow_eq_one).symm

/-- Once around, each state is back. -/
theorem rotation_self (d : ℕ) : rotation d d = 1 := by
  rw [← rotation_zero]
  ext i j
  rw [rotation, rotation, of_apply, of_apply, Nat.add_mod_right, Nat.add_zero]

/-! ## The Fourier gate -/

theorem matrix_fourier : Operator.matrix (fourier d : Operator ℝ) d =
    .of fun j k => ((1 / √(d : ℝ) : ℝ) : ℂ) * root d ^ (j.1 * k.1) := by
  ext j k
  have hentry : (fourier d : Operator ℝ).entry j k =
      .ofReal (1 / √(d : ℝ)) * (Amplitude.rootOfUnity d).pow (j.1 * k.1) :=
    Tensor.entry_matrix _ j.isLt k.isLt
  show ((fourier d : Operator ℝ).entry j k).toComplex = _
  rw [hentry, Amplitude.toComplex_mul, Amplitude.toComplex_pow, of_apply]
  rfl

/-- The Fourier gate is unitary. -/
theorem fourier_mem_unitaryGroup :
    Operator.matrix (fourier d : Operator ℝ) d ∈ unitaryGroup (Fin d) ℂ := by
  rw [mem_unitaryGroup_iff, star_eq_conjTranspose]
  ext i k
  have hd : (0 : ℝ) < d := Nat.cast_pos.mpr i.pos
  have hnorm : ((1 / √(d : ℝ) : ℝ) : ℂ) * ((1 / √(d : ℝ) : ℝ) : ℂ) * d = 1 := by
    have hreal : 1 / √(d : ℝ) * (1 / √(d : ℝ)) * d = 1 := by
      rw [div_mul_div_comm, one_mul, Real.mul_self_sqrt hd.le, one_div_mul_cancel hd.ne']
    exact_mod_cast congrArg Complex.ofReal hreal
  set c := ((1 / √(d : ℝ) : ℝ) : ℂ)
  have hreal : star c = c := Complex.conj_ofReal _
  rw [mul_apply, one_apply, matrix_fourier]
  calc ∑ b, of (fun j k : Fin d => c * root d ^ (j.1 * k.1)) i b *
        (of fun j k : Fin d => c * root d ^ (j.1 * k.1))ᴴ b k
      = ∑ b : Fin d, c * c * (root d ^ (b.1 * i.1) * (starRingEnd ℂ) (root d ^ (b.1 * k.1))) := by
        refine sum_congr rfl fun b _ => ?_
        rw [of_apply, conjTranspose_apply, of_apply, star_mul', hreal, starRingEnd_apply,
          mul_comm i.1, mul_comm k.1]
        ring
    _ = c * c * if i = k then (d : ℂ) else 0 := by
        rw [← mul_sum, ← sum_root_pow i k, sum_range]
    _ = if i = k then 1 else 0 := by
        split
        · exact hnorm
        · exact mul_zero _

/-! ## Relations of matrices -/

/-- The clock after a rotation by one state is the root times the rotation after the clock. -/
theorem clock_mul_rotation : (diagonal fun j : Fin d => root d ^ j.1) * rotation d 1 =
    root d • (rotation d 1 * diagonal fun j : Fin d => root d ^ j.1) := by
  ext i j
  rw [diagonal_mul, Matrix.smul_apply, mul_diagonal, smul_eq_mul, rotation, of_apply]
  split
  · next hi => rw [hi, root_pow_mod j.pos.ne', pow_succ, mul_one, one_mul, mul_comm]
  · rw [mul_zero, zero_mul, mul_zero]

/-- The Fourier gate after a rotation by one state is the clock after the Fourier gate. -/
theorem fourier_mul_rotation : Operator.matrix (fourier d : Operator ℝ) d * rotation d 1 =
    (diagonal fun j : Fin d => root d ^ j.1) * Operator.matrix (fourier d : Operator ℝ) d := by
  ext i j
  have hd : d ≠ 0 := j.pos.ne'
  -- the column of the next state has one more factor in each exponent, up to full turns
  have hturn : root d ^ (i.1 * ((j.1 + 1) % d)) = root d ^ i.1 * root d ^ (i.1 * j.1) := by
    rw [← root_pow_mod hd, Nat.mul_mod_mod, root_pow_mod hd, Nat.mul_add_one, pow_add, mul_comm]
  rw [mul_rotation_apply, diagonal_mul, matrix_fourier, of_apply, of_apply, hturn]
  ring

/-! ## Relations of operators -/

/-- What the shift, the clock and the Fourier gate of a qudit have to do with each other. -/
structure Relations (d : ℕ) : Prop where
  /-- The shift is unitary. -/
  shift_unitary : (shift d : Operator ℝ).Unitary
  /-- The clock is unitary. -/
  clock_unitary : (clock d : Operator ℝ).Unitary
  /-- The Fourier gate is unitary. -/
  fourier_unitary : (fourier d : Operator ℝ).Unitary
  /-- The shift takes each basis state to the next one, and the last to the first. -/
  shift_basisState : ∀ j < d, (StateVector.basisState d j : StateVector ℝ).apply false (shift d)
    [.nat 0] (.nat d) = .ok (.basisState d ((j + 1) % d))
  /-- The shift is back after as many times as there are basis states. -/
  shift_pow : (shift d : Operator ℝ).pow d = .identity d
  /-- The clock is back after as many times as there are basis states. -/
  clock_pow : (clock d : Operator ℝ).pow d = .identity d
  /-- The clock after the shift is the root of unity times the shift after the clock. -/
  clock_mul_shift : Operator.matrix (clock d * shift d) d =
    Complex.exp (2 * Real.pi * Complex.I / d) • Operator.matrix (shift d * clock d) d
  /-- The Fourier gate takes the shift to the clock. -/
  fourier_conj : (fourier d * shift d * (fourier d).adjoint : Operator ℝ) = clock d

/-- The shift takes each basis state of a qudit to the next one, and the last to the first. -/
theorem apply_shift_basisState (hd : 2 ≤ d) {j : ℕ} (hj : j < d) :
    (StateVector.basisState d j : StateVector ℝ).apply false (shift d) [.nat 0] (.nat d) =
      .ok (.basisState d ((j + 1) % d)) := by
  have hpow : d ^ 1 = d := pow_one d
  have hsize : (StateVector.basisState d j : StateVector ℝ).size = d ^ 1 := by
    rw [hpow]
    exact StateVector.size_build _ _
  have happly := StateVector.apply_targets hd hsize (List.cons_ne_nil 0 []) (List.nodup_singleton 0)
    (by simp) (show (shift d : Operator ℝ).shape = [d ^ 1, d ^ 1] by rw [hpow]; rfl)
  refine happly.trans (congrArg Except.ok ?_)
  have hadds := StateVector.adds_shift hd 0 (StateVector.basisState (d ^ 1) j)
  obtain ⟨y, hy, hshifted, heq⟩ := hadds.exists_basisState hd Nat.one_pos (fun _ => by omega)
    (fun _ _ _ => rfl) (by rwa [hpow]) rfl
  rw [hpow] at heq hy
  rw [heq]
  -- the only digit of an index below the dimension is the index
  have hdigit : digit d 0 y = (digit d 0 j + 1) % d := hshifted.digit_eq
  rw [digit, digit, pow_zero, Nat.div_one, Nat.div_one, Nat.mod_eq_of_lt hy, Nat.mod_eq_of_lt hj]
    at hdigit
  rw [hdigit]

/-- The three gates satisfy their relations in every dimension. -/
theorem relations (hd : 2 ≤ d) : Relations d where
  shift_unitary := Operator.unitary_of_mem rfl shift_mem_unitaryGroup
  clock_unitary := Operator.unitary_of_mem rfl clock_mem_unitaryGroup
  fourier_unitary := Operator.unitary_of_mem rfl fourier_mem_unitaryGroup
  shift_basisState j hj := apply_shift_basisState hd hj
  shift_pow := by
    refine Operator.eq_of_matrix_eq (Tensor.shape_pow rfl d) rfl ?_
    rw [matrix_shift_pow, rotation_self, Operator.matrix_identity]
  clock_pow := by
    refine Operator.eq_of_matrix_eq (Tensor.shape_pow rfl d) rfl ?_
    rw [matrix_clock_pow, Operator.matrix_identity, ← diagonal_one]
    congr 1
    funext j
    rw [pow_mul, (isPrimitiveRoot_root j.pos.ne').pow_eq_one, one_pow]
  clock_mul_shift := by
    rw [Operator.matrix_mul rfl rfl, Operator.matrix_mul rfl rfl, matrix_clock, matrix_shift,
      clock_mul_rotation, root_eq_exp]
  fourier_conj := by
    have hadjoint : (fourier d : Operator ℝ).adjoint.shape = [d, d] := Tensor.shape_adjoint rfl
    have hproduct : (fourier d * shift d : Operator ℝ).shape = [d, d] := Tensor.shape_mul rfl rfl
    refine Operator.eq_of_matrix_eq (Tensor.shape_mul hproduct hadjoint) rfl ?_
    rw [Operator.matrix_mul hproduct hadjoint, Operator.matrix_mul rfl rfl, matrix_shift,
      fourier_mul_rotation, Operator.matrix_adjoint rfl, Matrix.mul_assoc, ← star_eq_conjTranspose,
      mem_unitaryGroup_iff.mp fourier_mem_unitaryGroup, Matrix.mul_one, matrix_clock]

end Gate

end QuditSim
