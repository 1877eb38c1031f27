import Mathlib.Algebra.BigOperators.Fin
import Mathlib.Algebra.Order.Chebyshev
import Mathlib.Analysis.Complex.Norm
import Mathlib.LinearAlgebra.Matrix.SemiringInverse
import QuditSim.Proofs.Engine.Action

/-!
# What keeps norms

The weight of a register is the sum of the squared absolute values of its amplitudes. A matrix whose
columns are orthonormal keeps it when it acts on digits of the register, and so do the matrices of a
family together whose products with their adjoints sum to the identity.

- `FullRun.sum_total_matrixOn` is that fact for a family, and `FullRun.isometric_operatorOn` for a
  unitary operator. `FullRun.abs_sum_total_matrixOn_sub_le` is it up to an error in each entry.
- `FullRun.Isometric.selected`: a map that keeps the weight does so under control.
- `FullRun.Isometric.sum_eq`: a map that is local to some qudits and keeps the weight keeps that of
  every set of indices that only other qudits tell apart.
- `FullRun.Isometric.weight_eq` and `FullRun.Isometric.project`: such a map changes no chances of
  other qudits, and it can be made before or after they are measured.
- `Operator.unitary_iff`: an operator is unitary just if its columns are orthonormal.
- `Engine.isometric_of_acts`: the acts of a gate with a unitary operator keep the weight.
-/

open Finset

namespace QuditSim

/-! ## Orthonormal columns -/

/-- The columns of a square matrix are orthonormal. -/
def OrthonormalColumns (n : ℕ) (entry : ℕ → ℕ → ℂ) : Prop :=
  ∀ a < n, ∀ b < n, ∑ i ∈ range n, (starRingEnd ℂ) (entry i a) * entry i b = if a = b then 1 else 0

/-- The conjugate rows of a matrix with orthonormal columns are orthonormal as well. -/
theorem OrthonormalColumns.adjoint {n : ℕ} {entry : ℕ → ℕ → ℂ} (h : OrthonormalColumns n entry) :
    OrthonormalColumns n fun i b => (starRingEnd ℂ) (entry b i) := by
  let m : Matrix (Fin n) (Fin n) ℂ := .of fun i j => entry i j
  have hleft : m.conjTranspose * m = 1 := by
    ext a b
    rw [Matrix.mul_apply, Matrix.one_apply]
    have hsum := h a a.2 b b.2
    rw [sum_range] at hsum
    simp only [Fin.ext_iff]
    exact hsum
  -- a left inverse of a square matrix is a right one
  have hright : m * m.conjTranspose = 1 := mul_eq_one_comm.mp hleft
  intro a ha b hb
  have hsum := congrFun (congrFun hright ⟨a, ha⟩) ⟨b, hb⟩
  rw [Matrix.mul_apply, Matrix.one_apply] at hsum
  simp only [Fin.ext_iff] at hsum
  rw [sum_range, ← hsum]
  refine sum_congr rfl fun i _ => ?_
  dsimp only
  rw [Complex.conj_conj]
  rfl

/-- An operator over the real numbers is unitary. -/
def Operator.Unitary (op : Operator ℝ) : Prop :=
  op.isSquare = true ∧ op.adjoint * op = Tensor.identity op.columns

/-- The entries of the adjoint of an operator. -/
theorem Operator.toComplex_entry_adjoint {op : Operator ℝ} {n : ℕ} (hop : op.shape = [n, n])
    {a i : ℕ} (ha : a < n) (hi : i < n) :
    (op.adjoint.entry a i).toComplex = (starRingEnd ℂ) (op.entry i a).toComplex := by
  rw [Tensor.entry_adjoint hop ha hi, Amplitude.toComplex_conj]

/-- The product of an operator with its adjoint has the inner products of the columns as its
entries. -/
theorem Operator.toComplex_entry_adjoint_mul {op : Operator ℝ} {n : ℕ} (hop : op.shape = [n, n])
    {a b : ℕ} (ha : a < n) (hb : b < n) : ((op.adjoint * op).entry a b).toComplex =
      ∑ i ∈ range n, (starRingEnd ℂ) (op.entry i a).toComplex * (op.entry i b).toComplex := by
  rw [Tensor.entry_mul (Tensor.shape_adjoint hop) hop ha hb, Tensor.toComplex_inner]
  exact sum_congr rfl fun i hi => by rw [toComplex_entry_adjoint hop ha (mem_range.mp hi)]

theorem Operator.toComplex_entry_identity {n a b : ℕ} (ha : a < n) (hb : b < n) :
    ((Tensor.identity n : Operator ℝ).entry a b).toComplex = if a = b then 1 else 0 := by
  rw [Tensor.entry_identity ha hb]
  split <;> rfl

/-- An operator is unitary just if its columns are orthonormal. -/
theorem Operator.unitary_iff {op : Operator ℝ} {n : ℕ} (hop : op.shape = [n, n]) :
    op.Unitary ↔ OrthonormalColumns n fun i b => (op.entry i b).toComplex := by
  have hcolumns := Tensor.columns_of_shape hop
  have hsquare : op.isSquare = true := by simp [Tensor.isSquare, hop]
  have hproduct : (op.adjoint * op).shape = [n, n] :=
    Tensor.shape_mul (Tensor.shape_adjoint hop) hop
  unfold Operator.Unitary
  rw [hcolumns]
  constructor
  · rintro ⟨-, hunitary⟩ a ha b hb
    rw [← toComplex_entry_adjoint_mul hop ha hb, hunitary, toComplex_entry_identity ha hb]
  · intro horthonormal
    refine ⟨hsquare, Tensor.ext_entry hproduct rfl fun a ha b hb => ?_⟩
    apply Amplitude.toComplex_injective
    rw [toComplex_entry_adjoint_mul hop ha hb, toComplex_entry_identity ha hb]
    exact horthonormal a ha b hb

/-- The bit flip is unitary. -/
theorem Gate.unitary_pauliX : (Gate.pauliX : Operator ℝ).Unitary := by
  have hentry {i b : ℕ} (hi : i < 2) (hb : b < 2) :
      ((Gate.pauliX : Operator ℝ).entry i b).toComplex = if i = b then 0 else 1 := by
    have hmatrix : (Gate.pauliX : Operator ℝ).entry i b = ([[0, 1], [1, 0]].getD i []).getD b 0 :=
      Tensor.entry_matrix _ hi hb
    rw [hmatrix]
    rcases i with _ | _ | i <;> rcases b with _ | _ | b <;> first | rfl | omega
  refine (Operator.unitary_iff (n := 2) rfl).mpr fun a ha b hb => ?_
  dsimp only
  rw [sum_range_succ, sum_range_one, hentry (by decide) ha, hentry (by decide) hb,
    hentry (by decide) ha, hentry (by decide) hb]
  rcases a with _ | _ | a <;> rcases b with _ | _ | b <;> simp at ha hb ⊢

section Rows

variable {ι : Type} (s : Finset ι) {e : ι → ℕ → ℂ} {n : ℕ}

/-- What the rows of a family make of a vector, as the products of the rows with their adjoints make
it. -/
theorem ofReal_sum_normSq_mul (u : ℕ → ℂ) :
    ((∑ i ∈ s, Complex.normSq (∑ b ∈ range n, e i b * u b) : ℝ) : ℂ) =
      ∑ a ∈ range n, ∑ b ∈ range n, (starRingEnd ℂ) (u a) * u b *
        ∑ i ∈ s, (starRingEnd ℂ) (e i a) * e i b := by
  push_cast
  calc ∑ i ∈ s, (Complex.normSq (∑ b ∈ range n, e i b * u b) : ℂ)
      = ∑ i ∈ s, ∑ a ∈ range n, ∑ b ∈ range n,
          (starRingEnd ℂ) (u a) * u b * ((starRingEnd ℂ) (e i a) * e i b) := by
        refine sum_congr rfl fun i _ => ?_
        rw [Complex.normSq_eq_conj_mul_self, map_sum, sum_mul_sum]
        refine sum_congr rfl fun a _ => sum_congr rfl fun b _ => ?_
        rw [map_mul]
        ring
    _ = ∑ a ∈ range n, ∑ b ∈ range n, (starRingEnd ℂ) (u a) * u b *
          ∑ i ∈ s, (starRingEnd ℂ) (e i a) * e i b := by
        rw [sum_comm]
        refine sum_congr rfl fun a _ => ?_
        rw [sum_comm]
        exact sum_congr rfl fun b _ => (mul_sum _ _ _).symm

/-- The squared absolute values of a vector, as the products with the identity make them. -/
theorem ofReal_sum_normSq (u : ℕ → ℂ) :
    ((∑ b ∈ range n, Complex.normSq (u b) : ℝ) : ℂ) =
      ∑ a ∈ range n, ∑ b ∈ range n, (starRingEnd ℂ) (u a) * u b * if a = b then 1 else 0 := by
  push_cast
  refine sum_congr rfl fun a ha => ?_
  -- of the products of two entries, those of one entry with itself remain
  rw [sum_eq_single a]
  · rw [if_pos rfl, mul_one, Complex.normSq_eq_conj_mul_self]
  · intro b _ hne
    rw [if_neg hne.symm, mul_zero]
  · exact fun hnot => absurd ha hnot

/-- A family of rows whose products with their adjoints sum to the identity keeps the sum of the
squared absolute values. -/
theorem sum_normSq_mul (h : ∀ a < n, ∀ b < n,
      ∑ i ∈ s, (starRingEnd ℂ) (e i a) * e i b = if a = b then 1 else 0) (u : ℕ → ℂ) :
    ∑ i ∈ s, Complex.normSq (∑ b ∈ range n, e i b * u b) = ∑ b ∈ range n, Complex.normSq (u b) := by
  apply Complex.ofReal_injective
  rw [ofReal_sum_normSq_mul, ofReal_sum_normSq]
  exact sum_congr rfl fun a ha => sum_congr rfl fun b hb => by
    rw [h a (mem_range.mp ha) b (mem_range.mp hb)]

/-- A family of rows whose products with their adjoints sum to the identity up to an error in each
entry keeps the sum of the squared absolute values up to that error, once for each entry of a row. -/
theorem abs_sum_normSq_mul_sub_le {ε : ℝ} (h : ∀ a < n, ∀ b < n,
      ‖(∑ i ∈ s, (starRingEnd ℂ) (e i a) * e i b) - if a = b then 1 else 0‖ ≤ ε) (u : ℕ → ℂ) :
    |∑ i ∈ s, Complex.normSq (∑ b ∈ range n, e i b * u b) - ∑ b ∈ range n, Complex.normSq (u b)| ≤
      n * ε * ∑ b ∈ range n, Complex.normSq (u b) := by
  rcases Nat.eq_zero_or_pos n with rfl | hn
  · simp
  have hε : 0 ≤ ε := (norm_nonneg _).trans (h 0 hn 0 hn)
  rw [← Real.norm_eq_abs, ← Complex.norm_real, Complex.ofReal_sub, ofReal_sum_normSq_mul,
    ofReal_sum_normSq, ← sum_sub_distrib]
  calc ‖∑ a ∈ range n, (∑ b ∈ range n, (starRingEnd ℂ) (u a) * u b *
          (∑ i ∈ s, (starRingEnd ℂ) (e i a) * e i b) -
        ∑ b ∈ range n, (starRingEnd ℂ) (u a) * u b * if a = b then 1 else 0)‖
      ≤ ∑ a ∈ range n, ∑ b ∈ range n, ‖u a‖ * ‖u b‖ * ε := by
        refine norm_sum_le_of_le _ fun a ha => ?_
        rw [← sum_sub_distrib]
        refine norm_sum_le_of_le _ fun b hb => ?_
        rw [← mul_sub, Complex.norm_mul, Complex.norm_mul, Complex.norm_conj]
        exact mul_le_mul_of_nonneg_left (h a (mem_range.mp ha) b (mem_range.mp hb)) (by positivity)
    _ = ε * (∑ a ∈ range n, ‖u a‖) ^ 2 := by
        rw [sq, sum_mul_sum, mul_sum]
        refine sum_congr rfl fun a _ => ?_
        rw [mul_sum]
        exact sum_congr rfl fun b _ => mul_comm _ _
    _ ≤ ε * (n * ∑ a ∈ range n, ‖u a‖ ^ 2) := by
        have hcauchy := sq_sum_le_card_mul_sum_sq (s := range n) (f := fun a => ‖u a‖)
        rw [card_range] at hcauchy
        exact mul_le_mul_of_nonneg_left hcauchy hε
    _ = n * ε * ∑ b ∈ range n, Complex.normSq (u b) := by
        simp only [Complex.normSq_eq_norm_sq]
        ring

end Rows

namespace FullRun

noncomputable section

variable {d n : ℕ} {ts : List ℕ} {f g : Module.End ℂ (ℕ → ℂ)}

/-! ## The weight of a register -/

/-- The weight of a register of `n` qudits. -/
def total (d n : ℕ) (psi : ℕ → ℂ) : ℝ := ∑ x ∈ range (d ^ n), Complex.normSq (psi x)

section Placing

variable (hd : 2 ≤ d) (hts : ts.Nodup) (hrange : ∀ t ∈ ts, t < n)

include hd hts hrange

/-- Placing all numbers at some positions of all indices meets each index equally often. -/
theorem sum_placeDigits (F : ℕ → ℝ) :
    ∑ x ∈ range (d ^ n), ∑ i ∈ range (d ^ ts.length), F (placeDigits d ts i x) =
      d ^ ts.length * ∑ x ∈ range (d ^ n), F x := by
  have hpos : 0 < d := by omega
  let swap (p : ℕ × ℕ) : ℕ × ℕ := (placeDigits d ts p.2 p.1, readDigits d ts p.1)
  have hmem : ∀ p ∈ range (d ^ n) ×ˢ range (d ^ ts.length),
      swap p ∈ range (d ^ n) ×ˢ range (d ^ ts.length) := by
    intro p hp
    obtain ⟨hx, -⟩ := mem_product.mp hp
    exact mem_product.mpr ⟨mem_range.mpr (placeDigits_lt hpos hrange (mem_range.mp hx) _),
      mem_range.mpr (readDigits_lt hpos ts p.1)⟩
  -- what is placed and what was there change places, so doing it twice changes nothing
  have hswap : ∀ p ∈ range (d ^ n) ×ˢ range (d ^ ts.length), swap (swap p) = p := by
    intro p hp
    have hi := mem_range.mp (mem_product.mp hp).2
    show (placeDigits d ts (readDigits d ts p.1) (placeDigits d ts p.2 p.1),
      readDigits d ts (placeDigits d ts p.2 p.1)) = p
    rw [placeDigits_placeDigits hd hts, placeDigits_readDigits hd hts,
      readDigits_placeDigits hpos hts, Nat.mod_eq_of_lt hi]
  calc ∑ x ∈ range (d ^ n), ∑ i ∈ range (d ^ ts.length), F (placeDigits d ts i x)
      = ∑ p ∈ range (d ^ n) ×ˢ range (d ^ ts.length), F (swap p).1 := (sum_product' _ _ _).symm
    _ = ∑ p ∈ range (d ^ n) ×ˢ range (d ^ ts.length), F p.1 :=
        sum_nbij' swap swap hmem hmem hswap hswap fun p _ => rfl
    _ = ∑ x ∈ range (d ^ n), ∑ i ∈ range (d ^ ts.length), F x := sum_product _ _ _
    _ = d ^ ts.length * ∑ x ∈ range (d ^ n), F x := by
        simp only [sum_const, card_range, nsmul_eq_mul, Nat.cast_pow, mul_sum]

/-- The weights that matrices make of a register, as many times as numbers can be placed, are what
their rows make of the amplitudes that are placed. -/
theorem mul_sum_total_matrixOn {ι : Type} (s : Finset ι) (entry : ι → ℕ → ℕ → ℂ) (psi : ℕ → ℂ) :
    d ^ ts.length * ∑ k ∈ s, total d n (matrixOn d (entry k) ts psi) =
      ∑ x ∈ range (d ^ n), ∑ p ∈ s ×ˢ range (d ^ ts.length), Complex.normSq
        (∑ b ∈ range (d ^ ts.length), entry p.1 p.2 b * psi (placeDigits d ts b x)) := by
  have hpos : 0 < d := by omega
  -- the amplitudes that the matrix reads do not depend on what was placed before
  have hread (k : ι) (x i : ℕ) (hi : i < d ^ ts.length) :
      matrixOn d (entry k) ts psi (placeDigits d ts i x) =
        ∑ b ∈ range (d ^ ts.length), entry k i b * psi (placeDigits d ts b x) := by
    rw [matrixOn_apply, actOn, readDigits_placeDigits hpos hts, Nat.mod_eq_of_lt hi]
    exact sum_congr rfl fun b _ => by rw [placeDigits_placeDigits hd hts]
  calc (d : ℝ) ^ ts.length * ∑ k ∈ s, total d n (matrixOn d (entry k) ts psi)
      = ∑ k ∈ s, ∑ x ∈ range (d ^ n), ∑ i ∈ range (d ^ ts.length),
          Complex.normSq (matrixOn d (entry k) ts psi (placeDigits d ts i x)) := by
        rw [mul_sum]
        refine sum_congr rfl fun k _ => ?_
        exact (sum_placeDigits hd hts hrange fun x =>
          Complex.normSq (matrixOn d (entry k) ts psi x)).symm
    _ = ∑ x ∈ range (d ^ n), ∑ p ∈ s ×ˢ range (d ^ ts.length), Complex.normSq
          (∑ b ∈ range (d ^ ts.length), entry p.1 p.2 b * psi (placeDigits d ts b x)) := by
        rw [sum_comm]
        refine sum_congr rfl fun x _ => ?_
        rw [sum_product]
        refine sum_congr rfl fun k _ => sum_congr rfl fun i hi => ?_
        rw [hread k x i (mem_range.mp hi)]

/-- Matrices whose products with their adjoints sum to the identity keep the weight together. -/
theorem sum_total_matrixOn {ι : Type} (s : Finset ι) {entry : ι → ℕ → ℕ → ℂ}
    (h : ∀ a < d ^ ts.length, ∀ b < d ^ ts.length,
      ∑ k ∈ s, ∑ i ∈ range (d ^ ts.length), (starRingEnd ℂ) (entry k i a) * entry k i b =
        if a = b then 1 else 0) (psi : ℕ → ℂ) :
    ∑ k ∈ s, total d n (matrixOn d (entry k) ts psi) = total d n psi := by
  have hcount : (d : ℝ) ^ ts.length ≠ 0 := pow_ne_zero _ (by exact_mod_cast (by omega : d ≠ 0))
  apply mul_left_cancel₀ hcount
  rw [mul_sum_total_matrixOn hd hts hrange, total,
    ← sum_placeDigits hd hts hrange fun x => Complex.normSq (psi x)]
  refine sum_congr rfl fun x _ => sum_normSq_mul _ (fun a ha b hb => ?_) _
  rw [sum_product]
  exact h a ha b hb

/-- Matrices whose products with their adjoints sum to the identity up to an error in each entry
keep the weight together up to that error, once for each number that can be placed. -/
theorem abs_sum_total_matrixOn_sub_le {ι : Type} (s : Finset ι) {entry : ι → ℕ → ℕ → ℂ} {ε : ℝ}
    (h : ∀ a < d ^ ts.length, ∀ b < d ^ ts.length,
      ‖(∑ k ∈ s, ∑ i ∈ range (d ^ ts.length), (starRingEnd ℂ) (entry k i a) * entry k i b) -
        if a = b then 1 else 0‖ ≤ ε) (psi : ℕ → ℂ) :
    |∑ k ∈ s, total d n (matrixOn d (entry k) ts psi) - total d n psi| ≤
      d ^ ts.length * ε * total d n psi := by
  have hcount : (0 : ℝ) < d ^ ts.length := pow_pos (by exact_mod_cast (by omega : 0 < d)) _
  refine le_of_mul_le_mul_left ?_ hcount
  have hentries : ∀ a < d ^ ts.length, ∀ b < d ^ ts.length,
      ‖(∑ p ∈ s ×ˢ range (d ^ ts.length), (starRingEnd ℂ) (entry p.1 p.2 a) * entry p.1 p.2 b) -
        if a = b then 1 else 0‖ ≤ ε := by
    intro a ha b hb
    rw [sum_product]
    exact h a ha b hb
  have hplaced := sum_placeDigits hd hts hrange fun x => Complex.normSq (psi x)
  calc (d : ℝ) ^ ts.length * |∑ k ∈ s, total d n (matrixOn d (entry k) ts psi) - total d n psi|
      = |∑ x ∈ range (d ^ n), (∑ p ∈ s ×ˢ range (d ^ ts.length), Complex.normSq
            (∑ b ∈ range (d ^ ts.length), entry p.1 p.2 b * psi (placeDigits d ts b x)) -
          ∑ b ∈ range (d ^ ts.length), Complex.normSq (psi (placeDigits d ts b x)))| := by
        rw [sum_sub_distrib, ← mul_sum_total_matrixOn hd hts hrange, hplaced, ← total, ← mul_sub,
          abs_mul, abs_of_pos hcount]
    _ ≤ ∑ x ∈ range (d ^ n), (d ^ ts.length * ε *
          ∑ b ∈ range (d ^ ts.length), Complex.normSq (psi (placeDigits d ts b x))) := by
        refine (abs_sum_le_sum_abs _ _).trans (sum_le_sum fun x _ => ?_)
        have hrows := abs_sum_normSq_mul_sub_le _ hentries fun b => psi (placeDigits d ts b x)
        exact_mod_cast hrows
    _ = d ^ ts.length * (d ^ ts.length * ε * total d n psi) := by
        rw [← mul_sum, hplaced, ← total]
        ring

end Placing

/-! ## Maps that keep the weight -/

/-- A map keeps the weight of every register. -/
def Isometric (d n : ℕ) (f : Module.End ℂ (ℕ → ℂ)) : Prop :=
  ∀ psi, total d n (f psi) = total d n psi

/-- A matrix with orthonormal columns keeps the weight. -/
theorem isometric_matrixOn (hd : 2 ≤ d) (hts : ts.Nodup) (hrange : ∀ t ∈ ts, t < n)
    {entry : ℕ → ℕ → ℂ} (h : OrthonormalColumns (d ^ ts.length) entry) :
    Isometric d n (matrixOn d entry ts) := by
  intro psi
  -- a matrix alone is a family of one
  have hsum : ∑ k ∈ ({()} : Finset Unit), total d n (matrixOn d entry ts psi) = total d n psi := by
    refine sum_total_matrixOn hd hts hrange {()} (fun a ha b hb => ?_) psi
    rw [sum_singleton]
    exact h a ha b hb
  rwa [sum_singleton] at hsum

/-- A unitary operator keeps the weight. -/
theorem isometric_operatorOn (hd : 2 ≤ d) (hts : ts.Nodup) (hrange : ∀ t ∈ ts, t < n)
    {op : Operator ℝ} (hop : op.shape = [d ^ ts.length, d ^ ts.length]) (h : op.Unitary) :
    Isometric d n (operatorOn d op ts) :=
  isometric_matrixOn hd hts hrange ((Operator.unitary_iff hop).mp h)

namespace Isometric

theorem one (d n : ℕ) : Isometric d n 1 := fun _ => rfl

theorem mul (hf : Isometric d n f) (hg : Isometric d n g) : Isometric d n (f * g) :=
  fun psi => (hf (g psi)).trans (hg psi)

theorem pow (hf : Isometric d n f) (e : ℕ) : Isometric d n (f ^ e) := by
  induction e with
  | zero =>
    rw [pow_zero]
    exact one d n
  | succ e ih =>
    rw [pow_succ]
    exact ih.mul hf

theorem prod {maps : List (Module.End ℂ (ℕ → ℂ))} (h : ∀ f ∈ maps, Isometric d n f) :
    Isometric d n maps.prod := by
  induction maps with
  | nil => exact one d n
  | cons f maps ih =>
    obtain ⟨hf, hmaps⟩ := List.forall_mem_cons.mp h
    rw [List.prod_cons]
    exact hf.mul (ih hmaps)

/-- A map that is local to some qudits and keeps the weight keeps that of every set of indices that
only other qudits tell apart. -/
theorem sum_eq (hf : Isometric d n f) (hlocal : LocalTo d ts f) {P : ℕ → Prop} [DecidablePred P]
    (hP : ∀ x y, SameOff d ts x y → (P x ↔ P y)) (psi : ℕ → ℂ) :
    ∑ x ∈ range (d ^ n), (if P x then Complex.normSq (f psi x) else 0) =
      ∑ x ∈ range (d ^ n), if P x then Complex.normSq (psi x) else 0 := by
  -- the amplitudes of the set alone are mapped as all amplitudes are
  let part (x : ℕ) : ℂ := if P x then psi x else 0
  have hpart (x : ℕ) : f part x = if P x then f psi x else 0 := by
    split
    · next hx =>
      refine hlocal _ _ x fun y hy => ?_
      exact if_pos ((hP x y hy.symm).mp hx)
    · next hx =>
      refine hlocal.eq_zero fun y hy => ?_
      exact if_neg fun hy' => hx ((hP y x hy).mp hy')
  have hzero (z : ℕ → ℂ) (x : ℕ) : Complex.normSq (if P x then z x else 0) =
      if P x then Complex.normSq (z x) else 0 := by
    split
    · rfl
    · exact Complex.normSq_zero
  have htotal := hf part
  unfold total at htotal
  simp only [hpart] at htotal
  simpa only [part, hzero] using htotal

/-- A map that keeps the weight does so under control of other qudits. -/
theorem selected (hf : Isometric d n f) (hlocal : LocalTo d ts f) {κ : ℕ → ℕ}
    (hκ : ∀ x y, SameOff d ts x y → κ x = κ y) : Isometric d n (selected κ f) := by
  intro psi
  have hmaps : ∀ x ∈ range (d ^ n), κ x ∈ (range (d ^ n)).image κ :=
    fun x hx => mem_image_of_mem κ hx
  unfold total
  -- the indices that select one power are mapped by that power
  rw [← sum_fiberwise_of_maps_to hmaps, ← sum_fiberwise_of_maps_to hmaps]
  refine sum_congr rfl fun e _ => ?_
  have hsum := (hf.pow e).sum_eq (hlocal.pow e) (P := fun x => κ x = e)
    (fun x y hxy => by rw [hκ x y hxy]) psi
  rw [sum_filter, sum_filter, ← hsum]
  refine sum_congr rfl fun x _ => ?_
  split
  · next hx => rw [selected_apply, hx]
  · rfl

end Isometric

/-! ## Maps and measurements -/

/-- The weights of the numbers that some qudits can spell sum to the weight of the register. -/
theorem sum_weights (hd : 0 < d) (n : ℕ) (qs : List ℕ) (psi : ℕ → ℂ) :
    ((List.range (d ^ qs.length)).map (weight d n qs psi)).sum = total d n psi := by
  have hmaps : ∀ x ∈ range (d ^ n), readDigits d qs x ∈ range (d ^ qs.length) :=
    fun x _ => mem_range.mpr (readDigits_lt hd qs x)
  have hsum : ((List.range (d ^ qs.length)).map (weight d n qs psi)).sum =
      ∑ j ∈ range (d ^ qs.length), weight d n qs psi j := rfl
  rw [hsum, total, ← sum_fiberwise_of_maps_to hmaps]
  exact sum_congr rfl fun j _ => (sum_filter _ _).symm

/-- From the weights of the numbers that some qudits can spell, one is sampled if the register has
any weight. -/
theorem exists_sampleIndex (hd : 0 < d) {n : ℕ} (qs : List ℕ) {psi : ℕ → ℂ} (h : total d n psi ≠ 0)
    (u : ℝ) :
    ∃ j, sampleIndex ((List.range (d ^ qs.length)).map (weight d n qs psi)) u = .ok j := by
  have hweight (j : ℕ) : 0 ≤ weight d n qs psi j := by
    refine sum_nonneg fun x _ => ?_
    split
    · exact Complex.normSq_nonneg _
    · exact le_refl 0
  refine sampleIndex_eq_ok (fun w hw => ?_) ?_ u
  · obtain ⟨j, -, rfl⟩ := List.mem_map.mp hw
    exact hweight j
  · rw [sum_weights hd]
    exact lt_of_le_of_ne (sum_nonneg fun x _ => Complex.normSq_nonneg (psi x)) (Ne.symm h)

/-- A map that keeps the weight does so for the numbers that other qudits spell. -/
theorem Isometric.weight_eq {qs : List ℕ} (hf : Isometric d n f) (hlocal : LocalTo d ts f)
    (hqs : ∀ q ∈ qs, q ∉ ts) (psi : ℕ → ℂ) : weight d n qs (f psi) = weight d n qs psi := by
  funext j
  refine hf.sum_eq hlocal (P := fun x => readDigits d qs x = j) (fun x y hxy => ?_) psi
  rw [hxy.readDigits_eq hqs]

/-- A map that keeps the weight does so before or after other qudits are measured. -/
theorem Isometric.project {qs : List ℕ} (hf : Isometric d n f) (hlocal : LocalTo d ts f)
    (hqs : ∀ q ∈ qs, q ∉ ts) (psi : ℕ → ℂ) (j : ℕ) :
    project d n qs (f psi) j = f (project d n qs psi j) := by
  let factor : ℂ := ((√(weight d n qs psi j) : ℝ) : ℂ)⁻¹
  funext x
  unfold FullRun.project
  rw [hf.weight_eq hlocal hqs]
  by_cases hx : readDigits d qs x = j
  · rw [if_pos hx, div_eq_inv_mul]
    have hscaled : f (factor • psi) x = factor * f psi x := by rw [map_smul]; rfl
    rw [← hscaled]
    refine hlocal _ _ x fun y hy => ?_
    rw [hy.readDigits_eq hqs, if_pos hx, div_eq_inv_mul]
    rfl
  · rw [if_neg hx]
    refine (hlocal.eq_zero fun y hy => ?_).symm
    rw [hy.readDigits_eq hqs, if_neg hx]

end

end FullRun

/-! ## Gates with unitary operators -/

namespace Engine

section Gates

variable {c : Circuit ℝ} (hd : 2 ≤ c.dim) {step : GateStep} (hstep : step.Recorded c)
  {op : Operator ℝ} (hop : c.operands.get? step.key = some op) (hunitary : op.Unitary)

include hd hstep hop hunitary

/-- The operator that a recorded gate applies to its targets jointly keeps the weight if the
operator of the gate is unitary. -/
theorem isometric_of_jointOperand (hcontrol : step.kind.control?.isSome) {joint : Operator ℝ}
    (hjoint : jointOperand c step step.targets.length = .ok joint) :
    FullRun.Isometric c.dim c.qudits
      (FullRun.operatorOn c.dim joint (step.targets.map Int.toNat)) := by
  have hnodup := FullRun.nodup_places hstep.targets
  have hrange := FullRun.places_lt hstep.targets.inRange
  have hpos : step.targets.length ≠ 0 := List.length_eq_zero_iff.not.mpr hstep.targets.ne_nil
  obtain ⟨other, hother, hshape⟩ := hstep.operator
  obtain rfl : op = other := Option.some.inj (hop.symm.trans hother)
  by_cases hmultiple : ∃ control extent, step.kind = .controlled control extent .multiple
  · obtain ⟨control, extent, hkind⟩ := hmultiple
    rw [hkind] at hshape
    have hsingle : op.shape = [c.dim, c.dim] := by simpa [GateKind.acted] using hshape
    obtain rfl := Except.ok.inj (hjoint.symm.trans (jointOperand_multiple hkind hop hpos))
    -- the Kronecker power acts with the operator on each of the targets
    rw [FullRun.operatorOn_kronPow hd hsingle hnodup (by rw [List.length_map]; omega)]
    refine .prod fun f hf => ?_
    obtain ⟨t, ht, rfl⟩ := List.mem_map.mp hf
    exact FullRun.isometric_operatorOn hd (List.nodup_singleton t)
      (List.forall_mem_singleton.mpr (hrange t ht)) (by simpa using hsingle) hunitary
  · have hkind : ∀ control extent, step.kind ≠ .controlled control extent .multiple :=
      fun control extent hkind => hmultiple ⟨control, extent, hkind⟩
    obtain rfl := Except.ok.inj (hjoint.symm.trans (jointOperand_self hkind hop _))
    obtain ⟨same, hsame, hsize⟩ := jointOperand_eq_ok hstep hcontrol
    obtain rfl := Except.ok.inj (hjoint.symm.trans hsame)
    exact FullRun.isometric_operatorOn hd hnodup hrange (by rwa [List.length_map]) hunitary

/-- The acts of a recorded gate keep the weight if the operator of the gate is unitary. -/
theorem isometric_of_acts {dits : List ℕ} {list : List (Act ℝ)}
    (hlist : acts c dits step step.controls step.targets = .ok list) :
    ∀ act ∈ list, FullRun.Isometric c.dim c.qudits (FullRun.mapOf c.dim act) := by
  have hpos : 0 < c.dim := by omega
  have hnodup := FullRun.nodup_places hstep.targets
  have hrange := FullRun.places_lt hstep.targets.inRange
  intro act hact
  cases actsOf_of_acts hstep hlist with
  | plain other hother hshape =>
    obtain rfl : op = other := Option.some.inj (hop.symm.trans hother)
    rw [List.mem_singleton.mp hact]
    exact FullRun.isometric_operatorOn hd hnodup hrange (by rwa [List.length_map]) hunitary
  | fan other hother hshape =>
    obtain rfl : op = other := Option.some.inj (hop.symm.trans hother)
    obtain ⟨t, ht, rfl⟩ := List.mem_map.mp hact
    exact FullRun.isometric_operatorOn hd (List.nodup_singleton _)
      (List.forall_mem_singleton.mpr (hstep.targets.inRange t ht).toNat_lt) hshape hunitary
  | quantum joint hcontrol hjoint hshape =>
    have hjointly := isometric_of_jointOperand hd hstep hop hunitary (by rw [hcontrol]; rfl) hjoint
    have hcontrols := hstep.controls
    unfold Circuit.ControlsFit at hcontrols
    rw [hcontrol] at hcontrols
    obtain ⟨-, hcrange, hdisjoint⟩ := hcontrols
    have hoff := FullRun.not_mem_places hcrange hstep.targets.inRange hdisjoint
    rw [List.mem_singleton.mp hact]
    exact hjointly.selected (FullRun.localTo_operatorOn hpos joint _)
      fun x y hxy => FullRun.exponent_eq_of_sameOff hoff hxy
  | classical joint values _ hcontrol hjoint hshape hvalues =>
    have hjointly := isometric_of_jointOperand hd hstep hop hunitary (by rw [hcontrol]; rfl) hjoint
    rcases classicalActs_cases hshape hvalues with rfl | rfl | ⟨value, rfl⟩
    · exact absurd hact List.not_mem_nil
    · rw [List.mem_singleton.mp hact]
      exact hjointly
    · rw [List.mem_singleton.mp hact]
      have hpow := FullRun.operatorOn_pow hd hnodup (by rwa [List.length_map]) value
      rw [FullRun.mapOf, hpow]
      exact hjointly.pow value

end Gates

end Engine

end QuditSim
