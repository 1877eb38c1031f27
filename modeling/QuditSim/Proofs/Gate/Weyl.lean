import Mathlib.LinearAlgebra.UnitaryGroup
import Mathlib.RingTheory.RootsOfUnity.Complex
import QuditSim.Proofs.State.Axes

/-!
# Shift and clock

Over the real numbers, the shift of a qudit permutes the basis states in a cycle and the clock
multiplies them by the powers of a primitive root of unity. Both are unitary, and so are the
products of their powers. Averaging over all of these products forgets everything about a matrix but
its trace.

- `Amplitude.toComplex_pow` and `Gate.isPrimitiveRoot_root`: powers of amplitudes are those of complex
  numbers, and the root of unity of a dimension is primitive.
- `Gate.matrix_shift_pow` and `Gate.matrix_clock_pow` are the matrices of the powers.
- `Gate.shift_mem_unitaryGroup` and `Gate.clock_mem_unitaryGroup`: both gates are unitary.
- `Gate.sum_clock_conj` is the sum over the powers of the clock, and `Gate.sum_weyl_conj` the sum over
  the products of powers.
-/

open Finset Matrix

namespace QuditSim

/-! ## Powers of amplitudes -/

namespace Amplitude

/-- Repeated squaring multiplies by the power. -/
theorem toComplex_powFrom (acc square : Amplitude ℝ) (n : ℕ) :
    (powFrom acc square n).toComplex = acc.toComplex * square.toComplex ^ n := by
  induction n using Nat.strongRecOn generalizing acc square with
  | ind n ih =>
    unfold powFrom
    split
    · next hzero => rw [hzero, pow_zero, mul_one]
    · next hpos =>
      -- the exponent is twice its half, and one more if it is odd
      rw [ih (n / 2) (by omega), toComplex_mul, ← pow_two, ← pow_mul]
      split
      · next hodd =>
        have hexponent : n = 1 + 2 * (n / 2) := by omega
        conv_rhs => rw [hexponent, pow_add, pow_one]
        rw [toComplex_mul, mul_assoc]
      · next heven =>
        have hexponent : n = 2 * (n / 2) := by omega
        rw [← hexponent]

/-- A point of the unit circle is the exponential of its angle. -/
theorem toComplex_onCircle (x : ℝ) : (onCircle x).toComplex = Complex.exp (x * Complex.I) := by
  apply Complex.ext
  · exact (Complex.exp_ofReal_mul_I_re x).symm
  · exact (Complex.exp_ofReal_mul_I_im x).symm

/-- The powers of an amplitude are those of its complex number, whichever way they are formed. -/
theorem toComplex_pow (z : Amplitude ℝ) (n : ℕ) : (z.pow n).toComplex = z.toComplex ^ n := by
  unfold pow
  split
  · rw [toComplex_powFrom, toComplex_one, one_mul]
  -- in polar form, the modulus is raised to the power and the angle is multiplied
  · have hmodulus : z.modulus = ‖z.toComplex‖ := by
      rw [Complex.norm_def, Complex.normSq_apply]
      rfl
    have hpolar : z.toComplex ^ n = (‖z.toComplex‖ ^ n : ℝ) *
        (onCircle (Complex.arg z.toComplex * n)).toComplex := by
      rw [toComplex_onCircle, Complex.ofReal_mul, Complex.ofReal_natCast, mul_comm _ (n : ℂ), mul_assoc,
        Complex.exp_nat_mul, Complex.ofReal_pow, ← mul_pow, Complex.norm_mul_exp_arg_mul_I]
    rw [hpolar, ← hmodulus]
    apply Complex.ext
    · rw [Complex.re_ofReal_mul]
      rfl
    · rw [Complex.im_ofReal_mul]
      rfl

end Amplitude

namespace Gate

variable {d : ℕ}

/-! ## Roots of unity -/

/-- The root of unity that the clock of a dimension goes round with. -/
noncomputable def root (d : ℕ) : ℂ := (Amplitude.rootOfUnity d : Amplitude ℝ).toComplex

theorem root_eq_exp (d : ℕ) : root d = Complex.exp (2 * Real.pi * Complex.I / d) := by
  unfold root Amplitude.rootOfUnity
  rw [Amplitude.toComplex_onCircle]
  congr 1
  show (((1 + 1) * Real.pi / (d : ℝ) : ℝ) : ℂ) * Complex.I = _
  push_cast
  ring

theorem isPrimitiveRoot_root (hd : d ≠ 0) : IsPrimitiveRoot (root d) d := by
  rw [root_eq_exp]
  exact Complex.isPrimitiveRoot_exp d hd

/-- A root of unity times its conjugate is one. -/
theorem root_pow_mul_conj (hd : d ≠ 0) (k : ℕ) :
    root d ^ k * (starRingEnd ℂ) (root d ^ k) = 1 := by
  rw [Complex.mul_conj, Complex.normSq_eq_norm_sq, norm_pow,
    (isPrimitiveRoot_root hd).norm'_eq_one hd, one_pow, one_pow, Complex.ofReal_one]

/-- The powers of the quotient of two different powers of the root cancel. -/
theorem sum_root_pow (i k : Fin d) :
    ∑ b ∈ range d, root d ^ (b * i.1) * (starRingEnd ℂ) (root d ^ (b * k.1)) =
      if i = k then (d : ℂ) else 0 := by
  have hd : d ≠ 0 := by
    rintro rfl
    exact i.elim0
  split
  · next heq =>
    rw [sum_congr rfl fun b _ => by rw [heq, root_pow_mul_conj hd], sum_const, card_range, nsmul_one]
  · next hne =>
    have hroot := isPrimitiveRoot_root hd
    set quotient := root d ^ i.1 * (starRingEnd ℂ) (root d ^ k.1)
    -- the quotient is a root of unity as well, and it is one just for equal exponents
    have hquotient : quotient ≠ 1 := by
      intro hone
      refine hne (Fin.ext (hroot.pow_inj i.isLt k.isLt ?_))
      calc root d ^ i.1
          = quotient * root d ^ k.1 := by
            rw [mul_assoc, mul_comm _ (root d ^ k.1), root_pow_mul_conj hd, mul_one]
        _ = root d ^ k.1 := by rw [hone, one_mul]
    have hpow : quotient ^ d = 1 := by
      rw [mul_pow, ← map_pow, ← pow_mul, ← pow_mul, mul_comm i.1, mul_comm k.1, pow_mul, pow_mul,
        hroot.pow_eq_one, one_pow, one_pow, map_one, one_mul]
    calc ∑ b ∈ range d, root d ^ (b * i.1) * (starRingEnd ℂ) (root d ^ (b * k.1))
        = ∑ b ∈ range d, quotient ^ b := by
          refine sum_congr rfl fun b _ => ?_
          rw [mul_pow, ← map_pow, ← pow_mul, ← pow_mul, mul_comm b, mul_comm b]
      _ = 0 := by rw [geom_sum_eq hquotient, hpow, sub_self, zero_div]

/-! ## The matrices of shift and clock -/

/-- The matrix that takes each basis state of a qudit `a` states further, from the last to the
first. -/
noncomputable def rotation (d a : ℕ) : Matrix (Fin d) (Fin d) ℂ :=
  .of fun i j => if i.1 = (j + a) % d then 1 else 0

theorem rotation_zero : rotation d 0 = 1 := by
  ext i j
  rw [rotation, of_apply, Nat.add_zero, Nat.mod_eq_of_lt j.isLt, one_apply]
  simp only [Fin.ext_iff]

/-- Each column of a product is that of the state that the right factor takes the column to. -/
theorem mul_rotation_apply (m : Matrix (Fin d) (Fin d) ℂ) (a : ℕ) (i j : Fin d) :
    (m * rotation d a) i j = m i ⟨(j + a) % d, Nat.mod_lt _ j.pos⟩ := by
  rw [mul_apply, sum_eq_single ⟨(j + a) % d, Nat.mod_lt _ j.pos⟩]
  · rw [rotation, of_apply, if_pos rfl, mul_one]
  · intro k _ hne
    rw [rotation, of_apply, if_neg fun heq => hne (Fin.ext heq), mul_zero]
  · exact fun hnot => absurd (mem_univ _) hnot

theorem rotation_mul (a b : ℕ) : rotation d a * rotation d b = rotation d (a + b) := by
  ext i j
  rw [mul_rotation_apply, rotation, of_apply, rotation, of_apply, Nat.mod_add_mod, Nat.add_assoc,
    Nat.add_comm b]

theorem matrix_shift : Operator.matrix (shift d : Operator ℝ) d = rotation d 1 := by
  ext i j
  have hentry : (shift d : Operator ℝ).entry i j = if i.1 = (j.1 + 1) % d then 1 else 0 :=
    Tensor.entry_matrix _ i.isLt j.isLt
  show ((shift d : Operator ℝ).entry i j).toComplex = _
  rw [hentry, rotation, of_apply]
  split <;> rfl

theorem matrix_shift_pow (a : ℕ) :
    Operator.matrix ((shift d : Operator ℝ).pow a) d = rotation d a := by
  rw [Operator.matrix_pow rfl, matrix_shift]
  induction a with
  | zero => rw [pow_zero, rotation_zero]
  | succ a ih => rw [pow_succ, ih, rotation_mul]

theorem matrix_clock : Operator.matrix (clock d : Operator ℝ) d = diagonal fun j => root d ^ j.1 := by
  ext i j
  have hentry : (clock d : Operator ℝ).entry i j =
      if i.1 = j.1 then (Amplitude.rootOfUnity d).pow i.1 else 0 :=
    Tensor.entry_matrix _ i.isLt j.isLt
  show ((clock d : Operator ℝ).entry i j).toComplex = _
  rw [hentry, diagonal_apply]
  simp only [Fin.ext_iff]
  split
  · exact Amplitude.toComplex_pow _ _
  · rfl

theorem matrix_clock_pow (b : ℕ) : Operator.matrix ((clock d : Operator ℝ).pow b) d =
    diagonal fun j => root d ^ (b * j.1) := by
  rw [Operator.matrix_pow rfl, matrix_clock, diagonal_pow]
  congr 1
  funext j
  rw [Pi.pow_apply, ← pow_mul, mul_comm]

/-! ## Unitarity -/

/-- Two states that are taken to the same state are the same. -/
theorem eq_of_add_mod_eq {i j : Fin d} {a : ℕ} (h : (i.1 + a) % d = (j.1 + a) % d) : i = j := by
  have hmod : i.1 % d = j.1 % d := Nat.ModEq.add_right_cancel' a h
  rw [Nat.mod_eq_of_lt i.isLt, Nat.mod_eq_of_lt j.isLt] at hmod
  exact Fin.ext hmod

theorem shift_mem_unitaryGroup :
    Operator.matrix (shift d : Operator ℝ) d ∈ unitaryGroup (Fin d) ℂ := by
  rw [matrix_shift, mem_unitaryGroup_iff', star_eq_conjTranspose]
  ext i j
  rw [mul_rotation_apply, conjTranspose_apply, rotation, of_apply, one_apply]
  by_cases h : i = j
  · rw [if_pos h, if_pos (by rw [h]), star_one]
  · rw [if_neg h, if_neg fun hmod => h (eq_of_add_mod_eq hmod).symm, star_zero]

theorem clock_mem_unitaryGroup :
    Operator.matrix (clock d : Operator ℝ) d ∈ unitaryGroup (Fin d) ℂ := by
  rw [matrix_clock, mem_unitaryGroup_iff, star_eq_conjTranspose, diagonal_conjTranspose,
    diagonal_mul_diagonal, ← diagonal_one]
  congr 1
  funext j
  exact root_pow_mul_conj j.pos.ne' j

/-! ## Averages -/

/-- The matrix of a product of powers of the shift and the clock. -/
noncomputable def weyl (d a b : ℕ) : Matrix (Fin d) (Fin d) ℂ :=
  Operator.matrix ((shift d : Operator ℝ).pow a * (clock d : Operator ℝ).pow b) d

theorem weyl_eq (a b : ℕ) :
    weyl d a b = rotation d a * diagonal fun j => root d ^ (b * j.1) := by
  have hshift : ((shift d : Operator ℝ).pow a).shape = [d, d] := Tensor.shape_pow rfl a
  have hclock : ((clock d : Operator ℝ).pow b).shape = [d, d] := Tensor.shape_pow rfl b
  rw [weyl, Operator.matrix_mul hshift hclock, matrix_shift_pow, matrix_clock_pow]

theorem weyl_zero : weyl d 0 0 = 1 := by
  simp [weyl_eq, rotation_zero]

theorem weyl_mem_unitaryGroup (a b : ℕ) : weyl d a b ∈ unitaryGroup (Fin d) ℂ := by
  have hshift : ((shift d : Operator ℝ).pow a).shape = [d, d] := Tensor.shape_pow rfl a
  have hclock : ((clock d : Operator ℝ).pow b).shape = [d, d] := Tensor.shape_pow rfl b
  rw [weyl, Operator.matrix_mul hshift hclock, Operator.matrix_pow rfl, Operator.matrix_pow rfl]
  exact mul_mem (pow_mem shift_mem_unitaryGroup a) (pow_mem clock_mem_unitaryGroup b)

/-- The powers of the clock together keep the diagonal of a matrix, and nothing else. -/
theorem sum_clock_conj (m : Matrix (Fin d) (Fin d) ℂ) :
    ∑ b ∈ range d, weyl d 0 b * m * (weyl d 0 b)ᴴ = (d : ℂ) • diagonal m.diag := by
  ext i k
  rw [Matrix.sum_apply, Matrix.smul_apply, diagonal_apply, smul_eq_mul]
  calc ∑ b ∈ range d, (weyl d 0 b * m * (weyl d 0 b)ᴴ) i k
      = ∑ b ∈ range d, m i k * (root d ^ (b * i.1) * (starRingEnd ℂ) (root d ^ (b * k.1))) := by
        refine sum_congr rfl fun b _ => ?_
        rw [weyl_eq, rotation_zero, Matrix.one_mul, diagonal_conjTranspose, mul_diagonal, diagonal_mul,
          Pi.star_apply, ← starRingEnd_apply]
        ring
    _ = m i k * if i = k then (d : ℂ) else 0 := by rw [← mul_sum, sum_root_pow]
    _ = d * if i = k then m.diag i else 0 := by
        split
        · next heq => rw [diag_apply, heq, mul_comm]
        · rw [mul_zero, mul_zero]

/-- Each state is taken to each state by one of the rotations. -/
theorem sum_rotation (i j : Fin d) : ∑ a ∈ range d, rotation d a i j = 1 := by
  have hi := i.isLt
  have hj := j.isLt
  have hback : (i.1 + (d - j)) % d ∈ range d := mem_range.mpr (Nat.mod_lt _ i.pos)
  rw [sum_eq_single_of_mem _ hback fun a ha hne => ?_]
  · have hreach : i.1 = (j + (i.1 + (d - j)) % d) % d := by
      rw [Nat.add_mod_mod, show j.1 + (i.1 + (d - j)) = i.1 + d by omega, Nat.add_mod_right,
        Nat.mod_eq_of_lt hi]
    exact if_pos hreach
  -- a rotation that takes one state to the other one is the one back
  · refine if_neg fun hreach => hne ?_
    have ha := mem_range.mp ha
    rw [hreach, Nat.mod_add_mod, show j.1 + a + (d - j) = a + d by omega, Nat.add_mod_right,
      Nat.mod_eq_of_lt ha]

/-- The rotations together spread a diagonal evenly. -/
theorem sum_rotation_conj (v : Fin d → ℂ) :
    ∑ a ∈ range d, rotation d a * diagonal v * (rotation d a)ᴴ = (∑ j, v j) • 1 := by
  ext i k
  -- no state is taken to two different ones
  have hproduct (a : ℕ) (j : Fin d) : rotation d a i j * v j * star (rotation d a k j) =
      if i = k then v j * rotation d a i j else 0 := by
    by_cases h : i = k
    · rw [if_pos h, ← h, rotation, of_apply]
      split <;> simp
    · rw [if_neg h, rotation, of_apply, of_apply]
      split
      · next hi =>
        rw [if_neg fun hk => h (Fin.ext (hi.trans hk.symm)), star_zero, mul_zero]
      · rw [zero_mul, zero_mul]
  rw [Matrix.sum_apply, Matrix.smul_apply, one_apply, smul_eq_mul]
  calc ∑ a ∈ range d, (rotation d a * diagonal v * (rotation d a)ᴴ) i k
      = ∑ a ∈ range d, ∑ j, if i = k then v j * rotation d a i j else 0 := by
        refine sum_congr rfl fun a _ => ?_
        rw [mul_apply]
        exact sum_congr rfl fun j _ => by
          rw [mul_diagonal, conjTranspose_apply, hproduct]
    _ = ∑ j, if i = k then v j else 0 := by
        rw [sum_comm]
        refine sum_congr rfl fun j _ => ?_
        split
        · rw [← mul_sum, sum_rotation, mul_one]
        · exact sum_const_zero
    _ = (∑ j, v j) * if i = k then 1 else 0 := by
        split
        · rw [mul_one]
        · rw [sum_const_zero, mul_zero]

/-- All products of powers of the shift and the clock together forget a matrix but for its trace. -/
theorem sum_weyl_conj (m : Matrix (Fin d) (Fin d) ℂ) :
    ∑ a ∈ range d, ∑ b ∈ range d, weyl d a b * m * (weyl d a b)ᴴ = ((d : ℂ) * m.trace) • 1 := by
  calc ∑ a ∈ range d, ∑ b ∈ range d, weyl d a b * m * (weyl d a b)ᴴ
      = ∑ a ∈ range d, rotation d a * (∑ b ∈ range d, weyl d 0 b * m * (weyl d 0 b)ᴴ) *
          (rotation d a)ᴴ := by
        refine sum_congr rfl fun a _ => ?_
        rw [Matrix.mul_sum, Matrix.sum_mul]
        refine sum_congr rfl fun b _ => ?_
        rw [weyl_eq a, weyl_eq 0, rotation_zero, Matrix.one_mul, conjTranspose_mul]
        simp only [Matrix.mul_assoc]
    _ = (d : ℂ) • ∑ a ∈ range d, rotation d a * diagonal m.diag * (rotation d a)ᴴ := by
        rw [sum_clock_conj, smul_sum]
        exact sum_congr rfl fun a _ => by rw [Matrix.mul_smul, Matrix.smul_mul]
    _ = ((d : ℂ) * m.trace) • 1 := by rw [sum_rotation_conj, smul_smul, trace]

end Gate

end QuditSim
