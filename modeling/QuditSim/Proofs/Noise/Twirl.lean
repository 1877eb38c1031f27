import Mathlib.Analysis.CStarAlgebra.Classes
import QuditSim.Proofs.Noise.Mixture

/-!
# What the channels of a qudit do to a density

A channel takes a density matrix to the sum of its conjugations by the operators. Depolarizing
replaces a part of the matrix by the identity times the trace, and dephasing a part of it by the
diagonal: the errors of a qudit are all products of powers of the shift and the clock, or all powers
of the clock, and with the identity these average out. For a qubit, the same is true of the three
flips and of the phase flip.

- `Channel.image` is what a channel makes of a matrix, and `Channel.image_mixture` what a mixture of
  errors does that together average out.
- `Channel.add_sum_weylOperators`, `Channel.add_sum_clockPowers`, `Channel.add_sum_flips` and
  `Channel.add_phase_flip`: the averages.
- `Channel.image_depolarized` and `Channel.image_dephased`: what such mixtures make of a matrix.
- `Channel.image_qudit`: the channels of a qudit in closed form.
-/

open Finset Matrix

namespace QuditSim

namespace Channel

variable {d : ℕ} {p : ℝ}

/-- What a channel on qudits of a dimension makes of a matrix. -/
noncomputable def image (channel : Channel ℝ) (d : ℕ) (m : Matrix (Fin d) (Fin d) ℂ) :
    Matrix (Fin d) (Fin d) ℂ :=
  (channel.ops.map fun op => Operator.matrix op d * m * (Operator.matrix op d)ᴴ).sum

/-- A mixture of errors that together with the identity make something of a matrix, makes a part of
that and leaves the rest. -/
theorem image_mixture (hp : 0 ≤ p ∧ p ≤ 1) {channel : Channel ℝ} {errors : List (Operator ℝ)}
    (hops : channel.ops = mixture p d errors) (herrors : ∀ op ∈ errors, op.shape = [d, d])
    {m average : Matrix (Fin d) (Fin d) ℂ}
    (haverage : m + (errors.map fun op => Operator.matrix op d * m * (Operator.matrix op d)ᴴ).sum =
      average) :
    channel.image d m = (1 - p - p / errors.length) • m + (p / errors.length) • average := by
  have hquadratic (x : ℝ) (k : Matrix (Fin d) (Fin d) ℂ) :
      ((x : ℂ) • k) * m * ((x : ℂ) • k)ᴴ = ((x * x : ℝ) : ℂ) • (k * m * kᴴ) := by
    rw [conjTranspose_smul, Matrix.smul_mul, Matrix.smul_mul, Matrix.mul_smul, smul_smul,
      Complex.star_def, Complex.conj_ofReal, Complex.ofReal_mul]
  rw [image, hops, sum_mixture (f := fun k => k * m * kᴴ) hquadratic hp herrors, ← haverage,
    conjTranspose_one, Matrix.one_mul, Matrix.mul_one, Complex.coe_smul, Complex.coe_smul]
  module

/-! ## Averages -/

/-- The errors of depolarizing and the identity leave the trace of a matrix. -/
theorem add_sum_weylOperators (hd : 2 ≤ d) (m : Matrix (Fin d) (Fin d) ℂ) :
    m + ((weylOperators d).map fun op => Operator.matrix op d * m * (Operator.matrix op d)ᴴ).sum =
      (d : ℝ) • m.trace • 1 := by
  have hsum := sum_weylOperators hd fun k => k * m * kᴴ
  rw [conjTranspose_one, Matrix.one_mul, Matrix.mul_one, Gate.sum_weyl_conj, mul_smul] at hsum
  exact hsum

/-- The errors of dephasing and the identity leave the diagonal of a matrix. -/
theorem add_sum_clockPowers (hd : 2 ≤ d) (m : Matrix (Fin d) (Fin d) ℂ) :
    m + ((clockPowers d).map fun op => Operator.matrix op d * m * (Operator.matrix op d)ᴴ).sum =
      (d : ℝ) • diagonal m.diag := by
  have hsum := sum_clockPowers hd fun k => k * m * kᴴ
  rw [conjTranspose_one, Matrix.one_mul, Matrix.mul_one, Gate.sum_clock_conj] at hsum
  exact hsum

/-- The three flips of a qubit and the identity leave the trace of a matrix. -/
theorem add_sum_flips (m : Matrix (Fin 2) (Fin 2) ℂ) :
    m + ([Gate.pauliX, Gate.pauliY, Gate.pauliZ].map fun op : Operator ℝ =>
      Operator.matrix op 2 * m * (Operator.matrix op 2)ᴴ).sum = ((2 : ℕ) : ℝ) • m.trace • 1 := by
  simp only [List.map_cons, List.map_nil, List.sum_cons, List.sum_nil, Gate.pauliX, Gate.pauliY,
    Gate.pauliZ, Gate.matrix_ofRows]
  have hturn (z : ℂ) : Complex.I * z * Complex.I = -z := by
    rw [mul_right_comm, Complex.I_mul_I, neg_one_mul]
  ext i j
  simp only [Matrix.add_apply, mul_apply, conjTranspose_apply, Fin.sum_univ_two]
  fin_cases i <;> fin_cases j <;>
    simp [Gate.toComplex_imaginary, Gate.toComplex_neg_imaginary, Amplitude.toComplex_ofReal, trace,
      hturn]
  -- off the diagonal, the flips cancel
  all_goals ring

/-- The phase flip of a qubit and the identity leave the diagonal of a matrix. -/
theorem add_phase_flip (m : Matrix (Fin 2) (Fin 2) ℂ) :
    m + ([Gate.pauliZ].map fun op : Operator ℝ =>
      Operator.matrix op 2 * m * (Operator.matrix op 2)ᴴ).sum = ((2 : ℕ) : ℝ) • diagonal m.diag := by
  simp only [List.map_cons, List.map_nil, List.sum_cons, List.sum_nil, Gate.pauliZ, Gate.matrix_ofRows]
  ext i j
  simp only [Matrix.add_apply, mul_apply, conjTranspose_apply, Fin.sum_univ_two]
  fin_cases i <;> fin_cases j <;> simp [Amplitude.toComplex_ofReal]
  all_goals ring

/-! ## The channels of a qudit -/

/-- What depolarizing makes of a matrix of a dimension. -/
noncomputable def depolarized (p : ℝ) (m : Matrix (Fin d) (Fin d) ℂ) : Matrix (Fin d) (Fin d) ℂ :=
  (1 - p * d ^ 2 / (d ^ 2 - 1)) • m + (p * d / (d ^ 2 - 1)) • m.trace • 1

/-- What dephasing makes of a matrix of a dimension. -/
noncomputable def dephased (p : ℝ) (m : Matrix (Fin d) (Fin d) ℂ) : Matrix (Fin d) (Fin d) ℂ :=
  (1 - p * d / (d - 1)) • m + (p * d / (d - 1)) • diagonal m.diag

section Closed

variable (hp : 0 ≤ p ∧ p ≤ 1) {errors : List (Operator ℝ)} {made : Except ChannelFault (Channel ℝ)}
  (h : MakesMixture p d errors made) (herrors : ∀ op ∈ errors, op.shape = [d, d])

include hp h herrors

/-- A mixture of errors that with the identity average out, replaces a part of a matrix by the
average. -/
theorem image_averaged {n : ℝ} (hn : n ≠ 0) (hcount : errors.length = n)
    {average : Matrix (Fin d) (Fin d) ℂ → Matrix (Fin d) (Fin d) ℂ}
    (haverage : ∀ m, m + (errors.map fun op => Operator.matrix op d * m * (Operator.matrix op d)ᴴ).sum =
      (d : ℝ) • average m) :
    ∃ channel, made = .ok channel ∧
      ∀ m, channel.image d m = (1 - p * (n + 1) / n) • m + (p * d / n) • average m := by
  obtain ⟨channel, hmade, -, hops⟩ := h
  refine ⟨channel, hmade, fun m => ?_⟩
  have hkept : 1 - p - p / n = 1 - p * (n + 1) / n := by
    field_simp
    ring
  rw [image_mixture hp hops herrors (haverage m), hcount, hkept, smul_smul, div_mul_eq_mul_div]

variable (hd : 2 ≤ d)

include hd

/-- Errors that are one less than the square of the dimension and average out to the trace,
depolarize. -/
theorem image_depolarized (hlength : errors.length = d * d - 1)
    (haverage : ∀ m, m + (errors.map fun op => Operator.matrix op d * m * (Operator.matrix op d)ᴴ).sum =
      (d : ℝ) • m.trace • 1) :
    ∃ channel, made = .ok channel ∧ ∀ m, channel.image d m = depolarized p m := by
  have hpos : 2 * 2 ≤ d * d := Nat.mul_le_mul hd hd
  have hcount : (errors.length : ℝ) = d ^ 2 - 1 := by
    rw [hlength, Nat.cast_sub (by omega), Nat.cast_mul, Nat.cast_one, pow_two]
  have hne : (d ^ 2 - 1 : ℝ) ≠ 0 := by
    rw [← hcount, Nat.cast_ne_zero]
    omega
  have himage := image_averaged hp h herrors hne hcount haverage
  rwa [sub_add_cancel] at himage

/-- Errors that are one less than the dimension and average out to the diagonal, dephase. -/
theorem image_dephased (hlength : errors.length = d - 1)
    (haverage : ∀ m, m + (errors.map fun op => Operator.matrix op d * m * (Operator.matrix op d)ᴴ).sum =
      (d : ℝ) • diagonal m.diag) :
    ∃ channel, made = .ok channel ∧ ∀ m, channel.image d m = dephased p m := by
  have hcount : (errors.length : ℝ) = d - 1 := by
    rw [hlength, Nat.cast_sub (by omega), Nat.cast_one]
  have hne : (d - 1 : ℝ) ≠ 0 := by
    rw [← hcount, Nat.cast_ne_zero]
    omega
  have himage := image_averaged hp h herrors hne hcount haverage
  rwa [sub_add_cancel] at himage

end Closed

/-- For a probability and in every dimension, the channels of a qudit are made and have a closed
form: one replaces a part of a matrix by its trace, the other one by its diagonal. For a qubit, the
channels that are made of its flips do the same. -/
theorem image_qudit (p : Written ℝ) (hp : 0 ≤ p.value ∧ p.value ≤ 1) :
    (∀ d, 2 ≤ d → ∃ depolarizing dephasing,
      quditDepolarizing p (.nat d) = .ok depolarizing ∧ quditDephasing p (.nat d) = .ok dephasing ∧
      ∀ m : Matrix (Fin d) (Fin d) ℂ,
        depolarizing.image d m = (1 - p.value * d ^ 2 / (d ^ 2 - 1)) • m +
          (p.value * d / (d ^ 2 - 1)) • m.trace • 1 ∧
        dephasing.image d m = (1 - p.value * d / (d - 1)) • m +
          (p.value * d / (d - 1)) • diagonal m.diag) ∧
    ∃ ofQudit ofQubit dephasing flip,
      quditDepolarizing p (.nat 2) = .ok ofQudit ∧ depolarizing p = .ok ofQubit ∧
      quditDephasing p (.nat 2) = .ok dephasing ∧ phaseFlip p = .ok flip ∧
      ofQudit.image 2 = ofQubit.image 2 ∧ dephasing.image 2 = flip.image 2 := by
  have hdepolarizing (d : ℕ) (hd : 2 ≤ d) := image_depolarized hp (makesMixture_quditDepolarizing hp hd)
    shape_weylOperators hd (length_weylOperators hd) (add_sum_weylOperators hd)
  have hdephasing (d : ℕ) (hd : 2 ≤ d) := image_dephased hp (makesMixture_quditDephasing hp hd)
    shape_clockPowers hd length_clockPowers (add_sum_clockPowers hd)
  constructor
  · intro d hd
    obtain ⟨depolarizing, hmade, himage⟩ := hdepolarizing d hd
    obtain ⟨dephasing, hmade', himage'⟩ := hdephasing d hd
    exact ⟨_, _, hmade, hmade', fun m => ⟨himage m, himage' m⟩⟩
  -- with the errors of a qubit, the averages are those of the dimension two
  · have hflips : ∀ op ∈ [Gate.pauliX, Gate.pauliY, (Gate.pauliZ : Operator ℝ)], op.shape = [2, 2] := by
      simp only [List.forall_mem_cons, List.not_mem_nil, false_imp_iff, implies_true, and_true]
      exact ⟨rfl, rfl, rfl⟩
    obtain ⟨ofQudit, hmade, himage⟩ := hdepolarizing 2 (Nat.le_refl 2)
    obtain ⟨dephasing, hmade', himage'⟩ := hdephasing 2 (Nat.le_refl 2)
    obtain ⟨ofQubit, hflipped, hqubit⟩ := image_depolarized hp (makesMixture_depolarizing hp)
      hflips (Nat.le_refl 2) rfl add_sum_flips
    obtain ⟨flip, hflip, hphase⟩ := image_dephased hp
      (makesMixture_flip hp _ _ rfl Gate.pauliZ_mem_unitaryGroup) (List.forall_mem_singleton.mpr rfl)
      (Nat.le_refl 2) rfl add_phase_flip
    refine ⟨_, _, _, _, hmade, hflipped, hmade', hflip, ?_, ?_⟩
    · funext m
      rw [himage, hqubit]
    · funext m
      rw [himage', hphase]

/-- The channels for one half in dimension three. -/
theorem image_half_three :
    ((0 : ℝ) ≤ 1 / 2 ∧ (1 / 2 : ℝ) ≤ 1) ∧ 2 ≤ 3 ∧ ∃ depolarizing dephasing,
      quditDepolarizing ⟨(1 / 2 : ℝ), "0.5"⟩ (.nat 3) = .ok depolarizing ∧
      quditDephasing ⟨(1 / 2 : ℝ), "0.5"⟩ (.nat 3) = .ok dephasing ∧
      ∀ m : Matrix (Fin 3) (Fin 3) ℂ,
        depolarizing.image 3 m = (7 / 16 : ℝ) • m + (3 / 16 : ℝ) • m.trace • 1 ∧
        dephasing.image 3 m = (1 / 4 : ℝ) • m + (3 / 4 : ℝ) • diagonal m.diag := by
  have hhalf : (0 : ℝ) ≤ 1 / 2 ∧ (1 / 2 : ℝ) ≤ 1 := by norm_num
  obtain ⟨depolarizing, dephasing, hmade, hmade', himage⟩ :=
    (image_qudit ⟨1 / 2, "0.5"⟩ hhalf).1 3 (by decide)
  refine ⟨hhalf, by decide, _, _, hmade, hmade', fun m => ?_⟩
  obtain ⟨hdepolarizing, hdephasing⟩ := himage m
  rw [hdepolarizing, hdephasing]
  norm_num

end Channel

end QuditSim
