import Mathlib.Data.Matrix.Basic
import Mathlib.LinearAlgebra.Matrix.ConjTranspose
import QuditSim.Proofs.Chance
import QuditSim.Proofs.Engine.Probability

/-!
# Drawn branches and the channel

A channel acts on a state by drawing one of its branches. Over the real numbers, the states that are
left average to what the channel makes of the projector of the state.

- `Operator.onPosition` is the matrix of an operator that acts on one position of a register, and
  `StateVector.projector` the matrix of a state.
- `StateVector.projector_branchOn` and `StateVector.chanceWeight_smul_projector` relate the
  projectors before a branch is taken, after it, and after it was divided by its norm.
- `Channel.norm_entry_total_sub_le`: the guard of a channel bounds each entry of its products.
- `Trajectory.unravels` puts this together with the chances of the branches.
-/

open Finset Matrix

namespace QuditSim

/-! ## Sums over the indices that agree elsewhere -/

section Sums

variable {d n p : ℕ}

theorem digit_placeDigits_self {b : ℕ} (hb : b < d) (x : ℕ) :
    digit d p (placeDigits d [p] b x) = b := by
  have hread := readDigits_placeDigits (by omega : 0 < d) (List.nodup_singleton p) b x
  rw [List.length_singleton, pow_one, Nat.mod_eq_of_lt hb] at hread
  simpa using hread

open Classical in
/-- The indices that agree with an index off a position are those with a digit placed there. -/
theorem sum_sameOff (hd : 2 ≤ d) (hp : p < n) (x : Fin (d ^ n)) (f : ℕ → ℂ) :
    (∑ y : Fin (d ^ n), if SameOff d [p] x y then f y else 0) =
      ∑ b ∈ range d, f (placeDigits d [p] b x) := by
  have hpos : 0 < d := by omega
  have hplaced (b : ℕ) : placeDigits d [p] b x < d ^ n :=
    placeDigits_lt hpos (List.forall_mem_singleton.mpr hp) x.isLt b
  symm
  refine sum_of_injOn (fun b => ⟨placeDigits d [p] b x, hplaced b⟩) ?_ ?_ ?_ fun b _ => ?_
  · intro b hb b' hb' heq
    rw [coe_range, Set.mem_Iio] at hb hb'
    rw [← digit_placeDigits_self hb x.1, ← digit_placeDigits_self hb' x.1, Fin.mk.inj heq]
  · exact fun b _ => mem_coe.mpr (mem_univ _)
  -- an index that agrees elsewhere is the one with its own digit placed
  · intro y _ hnot
    refine if_neg fun hsame => hnot ?_
    have hdigit : digit d p y < d := digit_lt hpos p y
    refine ⟨digit d p y, mem_coe.mpr (mem_range.mpr hdigit), Fin.ext ?_⟩
    refine eq_of_readDigits hd [p] ?_ ((SameOff.placeDigits hpos [p] _ x).trans hsame)
    simpa using digit_placeDigits_self hdigit x.1
  · exact (if_pos (SameOff.placeDigits hpos [p] b x).symm).symm

end Sums

/-! ## Matrices on a register -/

open Classical in
/-- The matrix of an operator that acts on one position of a register: its entries are those of the
operator at the digits there, between indices that no other position tells apart. -/
noncomputable def Operator.onPosition (op : Operator ℝ) (d n p : ℕ) :
    Matrix (Fin (d ^ n)) (Fin (d ^ n)) ℂ :=
  .of fun x y => if SameOff d [p] x y then (op.entry (digit d p x) (digit d p y)).toComplex else 0

namespace StateVector

variable {d n p : ℕ} {state : StateVector ℝ}

/-- The amplitudes of a state of a register. -/
noncomputable def vector (state : StateVector ℝ) (d n : ℕ) : Fin (d ^ n) → ℂ :=
  fun x => (state.amplitude x).toComplex

/-- The matrix of a state: its amplitudes times those of its adjoint. -/
noncomputable def projector (state : StateVector ℝ) (d n : ℕ) :
    Matrix (Fin (d ^ n)) (Fin (d ^ n)) ℂ :=
  vecMulVec (state.vector d n) (star (state.vector d n))

theorem chanceWeight_eq_sum (hsize : state.size = d ^ n) :
    (chanceWeight state : ℝ) = ∑ x, Complex.normSq (state.vector d n x) := by
  rw [chanceWeight_real, hsize, sum_range]
  rfl

/-- The branch of an operator is the product of its matrix with the amplitudes. -/
theorem vector_branchOn (hd : 2 ≤ d) (hsize : state.size = d ^ n) (hp : p < n)
    (op : Operator ℝ) :
    (branchOn d op p state).vector d n = op.onPosition d n p *ᵥ state.vector d n := by
  classical
  funext x
  calc (branchOn d op p state).vector d n x
      = ∑ b ∈ range (d ^ 1), (op.entry (readDigits d [p] x) b).toComplex *
          (state.amplitude (placeDigits d [p] b x)).toComplex :=
        amplitude_branchOn (by omega) hsize p op x.isLt
    _ = ∑ b ∈ range d, (op.entry (digit d p x) (digit d p (placeDigits d [p] b x))).toComplex *
          (state.amplitude (placeDigits d [p] b x)).toComplex := by
        have hread : readDigits d [p] x = digit d p x := by simp
        rw [pow_one, hread]
        refine sum_congr rfl fun b hb => ?_
        rw [digit_placeDigits_self (mem_range.mp hb)]
    _ = ∑ y : Fin (d ^ n), if SameOff d [p] x y then
          (op.entry (digit d p x) (digit d p y)).toComplex * (state.amplitude y).toComplex
        else 0 :=
        (sum_sameOff hd hp x fun y => (op.entry (digit d p x) (digit d p y)).toComplex *
          (state.amplitude y).toComplex).symm
    _ = ∑ y, op.onPosition d n p x y * state.vector d n y := by
        refine sum_congr rfl fun y _ => ?_
        rw [Operator.onPosition, of_apply, ite_mul, zero_mul]
        rfl

/-- The projector of the branch of an operator. -/
theorem projector_branchOn (hd : 2 ≤ d) (hsize : state.size = d ^ n) (hp : p < n)
    (op : Operator ℝ) :
    (branchOn d op p state).projector d n =
      op.onPosition d n p * state.projector d n * (op.onPosition d n p)ᴴ := by
  rw [projector, vector_branchOn hd hsize hp, star_mulVec, projector, mul_vecMulVec, vecMulVec_mul]

/-- A branch divided by the root of its weight has the projector of the branch, if it counts as much
as the weight. For a branch without weight, both are zero. -/
theorem chanceWeight_smul_projector (hsize : state.size = d ^ n) :
    ((chanceWeight state : ℝ) : ℂ) • (state.divRoot (chanceWeight state : ℝ)).projector d n =
      state.projector d n := by
  have hnonneg : 0 ≤ (chanceWeight state : ℝ) := chanceWeight_nonneg state
  ext x y
  rw [Matrix.smul_apply, projector, projector, vecMulVec_apply, vecMulVec_apply, Pi.star_apply,
    Pi.star_apply, smul_eq_mul]
  unfold vector
  rw [amplitude_divRoot_real, amplitude_divRoot_real]
  by_cases hzero : (chanceWeight state : ℝ) = 0
  · rw [chanceWeight_eq_sum hsize] at hzero
    have hx := (sum_eq_zero_iff_of_nonneg fun x _ => Complex.normSq_nonneg _).mp hzero x
      (mem_univ x)
    have hamplitude : (state.amplitude x).toComplex = 0 := Complex.normSq_eq_zero.mp hx
    rw [hamplitude, zero_div, zero_mul, zero_mul, mul_zero]
  · have hroot : ((√(chanceWeight state : ℝ) : ℝ) : ℂ) * (√(chanceWeight state : ℝ) : ℝ) =
        (chanceWeight state : ℝ) := by
      rw [← Complex.ofReal_mul, Real.mul_self_sqrt hnonneg]
    have hne : ((chanceWeight state : ℝ) : ℂ) ≠ 0 := Complex.ofReal_ne_zero.mpr hzero
    rw [star_div₀, Complex.star_def, Complex.conj_ofReal, div_mul_div_comm, hroot,
      mul_div_cancel₀ _ hne]

end StateVector

/-! ## What the guard of a channel bounds -/

theorem Scalar.largest_real (x y : ℝ) : Scalar.largest x y = max x y := by
  unfold Scalar.largest
  split
  · next h => rw [max_eq_right h.le]
  · next h =>
    rw [if_pos (not_lt.mp h), max_eq_left (not_lt.mp h)]

theorem Amplitude.modulus_real (z : Amplitude ℝ) : z.modulus = ‖z.toComplex‖ := by
  rw [Complex.norm_def, Complex.normSq_apply]
  rfl

namespace Channel

/-- The first scalar and those of a list are at most the largest of them. -/
theorem le_foldl_largest {x : ℝ} {xs : List ℝ} (first : ℝ) (h : x ≤ first ∨ x ∈ xs) :
    x ≤ xs.foldl Scalar.largest first := by
  induction xs generalizing first with
  | nil => exact h.resolve_right List.not_mem_nil
  | cons y xs ih =>
    rw [List.foldl_cons, Scalar.largest_real]
    rcases h with hfirst | hmem
    · exact ih _ (.inl (hfirst.trans (le_max_left first y)))
    · rcases List.mem_cons.mp hmem with rfl | hmem
      · exact ih _ (.inl (le_max_right first x))
      · exact ih _ (.inr hmem)

/-- The products of the operators of a channel are, entry by entry, as near to the identity as their
largest distance says. -/
theorem norm_entry_total_sub_le {d : ℕ} {ops : List (Operator ℝ)} {a b : ℕ} (ha : a < d)
    (hb : b < d) : ‖((total d ops).entry a b).toComplex -
      ((Tensor.identity d : Operator ℝ).entry a b).toComplex‖ ≤ deviation d ops := by
  have hplace : a * d + b ∈ List.range (d * d) := by
    have hlt := Tensor.place_lt ha hb
    simpa using hlt
  have hcolumns : (total d ops).columns = d := Tensor.columns_of_shape (shape_total d ops)
  have hcolumns' : (Tensor.identity d : Operator ℝ).columns = d := Tensor.columns_of_shape rfl
  unfold Tensor.entry
  rw [hcolumns, hcolumns']
  show ‖((total d ops).get (a * d + b) - (Tensor.identity d).get (a * d + b)).toComplex‖ ≤ _
  rw [← Amplitude.modulus_real]
  exact le_foldl_largest 0 (.inr (List.mem_map.mpr ⟨_, hplace, rfl⟩))

end Channel

namespace Trajectory

/-! ## The branches of a trajectory -/

section Branches

variable (model : Trajectory ℝ) (state : StateVector ℝ) (p : ℕ)

/-- The weights of the branches of the channel at a position. -/
noncomputable def weightsAt : List ℝ :=
  (model.branchesOf model.channel.dim p state).map StateVector.chanceWeight

/-- The state that a branch of the channel leaves at a position. -/
noncomputable def leftBy (i : ℕ) : StateVector ℝ :=
  ((model.branchesOf model.channel.dim p state).getD i #[]).divRoot
    ((model.weightsAt state p).getD i 0)

variable {model state p} {i : ℕ} (hi : i < model.channel.ops.length)

include hi

theorem getD_branchesOf : (model.branchesOf model.channel.dim p state).getD i #[] =
    StateVector.branchOn model.channel.dim model.channel.ops[i] p state := by
  simp [branchesOf, hi, Tensor.round_real]

theorem getD_weightsAt : (model.weightsAt state p).getD i 0 =
    StateVector.chanceWeight
      (StateVector.branchOn model.channel.dim model.channel.ops[i] p state) := by
  simp [weightsAt, branchesOf, hi, Tensor.round_real]

theorem leftBy_eq : model.leftBy state p i =
    (StateVector.branchOn model.channel.dim model.channel.ops[i] p state).divRoot
      (StateVector.chanceWeight
        (StateVector.branchOn model.channel.dim model.channel.ops[i] p state) : ℝ) := by
  rw [leftBy, getD_branchesOf hi, getD_weightsAt hi]

end Branches

theorem weightsAt_nonneg (model : Trajectory ℝ) (state : StateVector ℝ) (p : ℕ) :
    ∀ w ∈ model.weightsAt state p, 0 ≤ w := by
  intro w hw
  obtain ⟨branch, -, rfl⟩ := List.mem_map.mp hw
  exact StateVector.chanceWeight_nonneg branch

/-- What applying a channel to one position of a register of `n` qudits comes to. -/
structure Unravels (model : Trajectory ℝ) (n p : ℕ) (state : StateVector ℝ) : Prop where
  /-- Whatever the draws are, a branch is drawn, and the state that it leaves has norm one. -/
  applies (draws : Draws ℝ) : ∃ i < model.channel.ops.length,
    sampleIndex (model.weightsAt state p) draws.current = .ok i ∧
      (model.apply state (.nat p)).run.run draws =
        (.ok ({ model with lastBranch := i, lastWeights := model.weightsAt state p },
          model.leftBy state p i), draws.advance) ∧
        (model.leftBy state p i).norm = 1
  /-- The weight of a branch is the squared norm of what its operator makes of the state. -/
  weight_eq (i : Fin model.channel.ops.length) : (model.weightsAt state p).getD i 0 =
    ∑ x, Complex.normSq ((model.channel.ops[i].onPosition model.channel.dim n p *ᵥ
      state.vector model.channel.dim n) x)
  /-- The chance of a branch is its weight by the sum of the weights. -/
  chance_eq (i : Fin model.channel.ops.length) : chance (model.weightsAt state p) i =
    (model.weightsAt state p).getD i 0 / (model.weightsAt state p).sum
  /-- The states that are left have, on average, the projector that the channel makes of that of the
  state, by the sum of the weights. -/
  average : ∑ i : Fin model.channel.ops.length, (chance (model.weightsAt state p) i : ℂ) •
      (model.leftBy state p i).projector model.channel.dim n =
    ((model.weightsAt state p).sum : ℂ)⁻¹ • (model.channel.ops.map fun op =>
      op.onPosition model.channel.dim n p * state.projector model.channel.dim n *
        (op.onPosition model.channel.dim n p)ᴴ).sum
  /-- The weights sum to that of the state, up to the tolerance for each digit. -/
  sum_near : |(model.weightsAt state p).sum - state.norm ^ 2| ≤
    model.channel.dim * 1e-7 * state.norm ^ 2
  /-- If the channel keeps the trace exactly, the weights sum to that of the state. -/
  sum_eq : model.channel.Preserving → (model.weightsAt state p).sum = state.norm ^ 2

section Unravelling

variable {model : Trajectory ℝ} {state : StateVector ℝ} {n p : ℕ} (hd : 2 ≤ model.channel.dim)
  (hsize : state.size = model.channel.dim ^ n) (hp : p < n)

include hd hsize hp

/-- A branch leaves the product of the matrix of its operator with the amplitudes. -/
theorem weight_eq_sum (i : Fin model.channel.ops.length) : (model.weightsAt state p).getD i 0 =
    ∑ x, Complex.normSq ((model.channel.ops[i].onPosition model.channel.dim n p *ᵥ
      state.vector model.channel.dim n) x) := by
  rw [getD_weightsAt i.isLt, ← StateVector.vector_branchOn hd hsize hp]
  exact StateVector.chanceWeight_eq_sum (StateVector.size_branchOn hsize p _)

/-- The projector of what a branch leaves, as often as the weight of the branch says. -/
theorem weight_smul_projector (i : Fin model.channel.ops.length) :
    ((model.weightsAt state p).getD i 0 : ℂ) •
        (model.leftBy state p i).projector model.channel.dim n =
      model.channel.ops[i].onPosition model.channel.dim n p *
        state.projector model.channel.dim n *
          (model.channel.ops[i].onPosition model.channel.dim n p)ᴴ := by
  rw [leftBy_eq i.isLt, getD_weightsAt i.isLt,
    StateVector.chanceWeight_smul_projector (StateVector.size_branchOn hsize p _)]
  exact StateVector.projector_branchOn hd hsize hp _

variable (hsum : 0 < (model.weightsAt state p).sum)

include hsum

/-- If a branch has weight, applying the channel draws one that has, and divides it by its norm. -/
theorem exists_run_apply (hops : ∀ op ∈ model.channel.ops,
    op.shape = [model.channel.dim, model.channel.dim]) (draws : Draws ℝ) :
    ∃ i < model.channel.ops.length,
      sampleIndex (model.weightsAt state p) draws.current = .ok i ∧
        (model.apply state (.nat p)).run.run draws =
          (.ok ({ model with lastBranch := i, lastWeights := model.weightsAt state p },
            model.leftBy state p i), draws.advance) ∧
          (model.leftBy state p i).norm = 1 := by
  obtain ⟨i, hi⟩ := sampleIndex_eq_ok (model.weightsAt_nonneg state p) hsum draws.current
  have hlt : i < model.channel.ops.length := by
    simpa [weightsAt, branchesOf] using lt_of_sampleIndex hi
  have hdrawn : 0 < (model.weightsAt state p).getD i 0 := pos_of_sampleIndex hi
  refine ⟨i, hlt, hi, ?_, ?_⟩
  · have hweights : ((model.branchesOf model.channel.dim p state).map
        StateVector.chanceWeight : List ℝ) = model.weightsAt state p := rfl
    rw [run_apply hd hsize rfl hops hp]
    dsimp only
    rw [hweights, hi]
    rfl
  · rw [getD_weightsAt hlt] at hdrawn
    rw [leftBy_eq hlt]
    exact StateVector.norm_eq_one (StateVector.chanceWeight_divRoot hdrawn)

/-- On average, the projectors of what is left are those of the branches by the sum of the
weights. -/
theorem sum_chance_smul_projector :
    ∑ i : Fin model.channel.ops.length, (chance (model.weightsAt state p) i : ℂ) •
        (model.leftBy state p i).projector model.channel.dim n =
      ((model.weightsAt state p).sum : ℂ)⁻¹ • (model.channel.ops.map fun op =>
        op.onPosition model.channel.dim n p * state.projector model.channel.dim n *
          (op.onPosition model.channel.dim n p)ᴴ).sum := by
  rw [← Fin.sum_univ_fun_getElem model.channel.ops fun op =>
    op.onPosition model.channel.dim n p * state.projector model.channel.dim n *
      (op.onPosition model.channel.dim n p)ᴴ, smul_sum]
  refine sum_congr rfl fun i _ => ?_
  have hbranch := weight_smul_projector hd hsize hp i
  rw [chance_eq (model.weightsAt_nonneg state p) hsum, Complex.ofReal_div, div_eq_inv_mul,
    ← smul_smul, hbranch]
  rfl

end Unravelling

/-- A channel that was made, applied to a position of a state of which a branch has weight, is
unravelled by its branches. -/
theorem unravels {model : Trajectory ℝ} {name : Json} {items : List (BranchItem ℝ)} {dim : Argument}
    (hmade : Channel.create name items dim = .ok model.channel) {state : StateVector ℝ} {n p : ℕ}
    (hsize : state.size = model.channel.dim ^ n) (hp : p < n)
    (hweight : ∃ w ∈ model.weightsAt state p, w ≠ 0) : model.Unravels n p state := by
  obtain ⟨hd, hguard⟩ := Channel.guarded_of_create hmade
  obtain ⟨-, -, hops⟩ := Channel.fits_of_create hmade
  have hnonneg : ∀ w ∈ model.weightsAt state p, 0 ≤ w := model.weightsAt_nonneg state p
  have hsum : 0 < (model.weightsAt state p).sum := by
    obtain ⟨w, hw, hne⟩ := hweight
    exact (lt_of_le_of_ne (hnonneg w hw) hne.symm).trans_le (List.single_le_sum hnonneg w hw)
  have hnorm : state.norm ^ 2 = StateVector.chanceWeight state := by
    rw [StateVector.norm_real, ← StateVector.chanceWeight_real,
      Real.sq_sqrt (StateVector.chanceWeight_nonneg state)]
  refine ⟨exists_run_apply hd hsize hp hsum hops, weight_eq_sum hd hsize hp,
    fun i => chance_eq hnonneg hsum i, sum_chance_smul_projector hd hsize hp hsum, ?_, ?_⟩
  · rw [hnorm]
    refine abs_sum_chanceWeight_branchesOf_sub_le hd hsize hops (fun a ha b hb => ?_) hp
    exact (Channel.norm_entry_total_sub_le ha hb).trans (not_lt.mp hguard)
  · intro hpreserving
    rw [hnorm]
    exact sum_chanceWeight_branchesOf hd hsize hops hpreserving hp

/-- The readout of the second of two qubits that are both zero: of its two branches, one has no
weight. -/
theorem unravels_readout :
    let model : Trajectory ℝ := .start Engine.readout
    let state : StateVector ℝ := .zero 2 2
    Channel.create Engine.readout.name (Engine.readout.ops.map .operator) (.nat 2) =
        .ok model.channel ∧
      state.size = model.channel.dim ^ 2 ∧ (∃ w ∈ model.weightsAt state 1, w ≠ 0) ∧
        model.Unravels 2 1 state := by
  intro model state
  have hsize : state.size = model.channel.dim ^ 2 := StateVector.size_build _ _
  have hpreserving : model.channel.Preserving := Engine.preserving_readout
  obtain ⟨hd, -⟩ := Channel.guarded_of_create Engine.create_readout
  obtain ⟨-, -, hops⟩ := Channel.fits_of_create Engine.create_readout
  have hweight : ∃ w ∈ model.weightsAt state 1, w ≠ 0 := by
    have hsum : (model.weightsAt state 1).sum = StateVector.chanceWeight state :=
      sum_chanceWeight_branchesOf hd hsize hops hpreserving Nat.one_lt_two
    rw [StateVector.chanceWeight_zero Nat.two_pos] at hsum
    exact List.exists_mem_ne_zero_of_sum_ne_zero (hsum ▸ one_ne_zero)
  exact ⟨Engine.create_readout, hsize, hweight,
    unravels Engine.create_readout hsize Nat.one_lt_two hweight⟩

end Trajectory

end QuditSim
