import QuditSim.Proofs.Gate.Weyl
import QuditSim.Proofs.Noise.Idle

/-!
# Channels that mix unitary errors

Most channels of the library leave a qudit alone with some probability, and let one of several
unitary errors act on it with the rest, each as likely as any other. Over the real numbers, such a
channel keeps the trace, and so do the two dampings of a qubit.

- `Channel.mixture` are the operators of such a channel, and `Channel.sum_mixture` is a sum over
  them.
- `Channel.KeepsTrace` says of the complex matrices of the operators that they keep the trace, and
  `Channel.preserving_iff` relates it to the sum of products that the guard is given.
- `Channel.MakesMixture`: what makes a mixture; `Channel.makesMixture_depolarizing` and its
  neighbours say so of the channels of the library.
- `Channel.sum_weylOperators` and `Channel.sum_clockPowers`: with the identity, the errors of a
  qudit are all products of powers of the shift and the clock, and all powers of the clock.
- `Channel.probability_keepsTrace`: every channel of the library keeps the trace, for every
  probability.
-/

open Finset Matrix

namespace QuditSim

theorem Amplitude.toComplex_ofReal (x : ℝ) : (ofReal x).toComplex = x := rfl

namespace Operator

variable {op : Operator ℝ} {k : ℕ}

theorem matrix_scale (hop : op.shape = [k, k]) (x : ℝ) :
    matrix (op.scale x) k = (x : ℂ) • matrix op k := by
  ext i j
  show ((op.scale x).entry i j).toComplex = (x : ℂ) • (op.entry i j).toComplex
  rw [Tensor.entry_scale x hop i.isLt j.isLt, Amplitude.toComplex_mul]
  rfl

end Operator

/-- The complex matrix of an operator of a qubit that is written by its rows. -/
theorem Gate.matrix_ofRows (a b c e : Amplitude ℝ) :
    Operator.matrix (Gate.ofRows [[a, b], [c, e]]) 2 =
      !![a.toComplex, b.toComplex; c.toComplex, e.toComplex] := by
  ext i j
  have hentry : (Gate.ofRows [[a, b], [c, e]]).entry i j = ([[a, b], [c, e]].getD i []).getD j 0 :=
    Tensor.entry_matrix _ i.isLt j.isLt
  show ((Gate.ofRows [[a, b], [c, e]]).entry i j).toComplex = _
  rw [hentry]
  fin_cases i <;> fin_cases j <;> rfl

namespace Gate

theorem pauliX_mem_unitaryGroup :
    Operator.matrix (pauliX : Operator ℝ) 2 ∈ unitaryGroup (Fin 2) ℂ := by
  rw [mem_unitaryGroup_iff', star_eq_conjTranspose, pauliX, matrix_ofRows]
  ext i j
  fin_cases i <;> fin_cases j <;> simp [mul_apply]

theorem toComplex_imaginary : (imaginary : Amplitude ℝ).toComplex = Complex.I := rfl

theorem toComplex_neg_imaginary : (-imaginary : Amplitude ℝ).toComplex = -Complex.I := by
  apply Complex.ext
  · exact Complex.neg_re Complex.I
  · exact Complex.neg_im Complex.I

theorem pauliY_mem_unitaryGroup :
    Operator.matrix (pauliY : Operator ℝ) 2 ∈ unitaryGroup (Fin 2) ℂ := by
  rw [mem_unitaryGroup_iff', star_eq_conjTranspose, pauliY, matrix_ofRows]
  ext i j
  fin_cases i <;> fin_cases j <;> simp [mul_apply, toComplex_imaginary, toComplex_neg_imaginary]

theorem pauliZ_mem_unitaryGroup :
    Operator.matrix (pauliZ : Operator ℝ) 2 ∈ unitaryGroup (Fin 2) ℂ := by
  rw [mem_unitaryGroup_iff', star_eq_conjTranspose, pauliZ, matrix_ofRows]
  ext i j
  fin_cases i <;> fin_cases j <;> simp [mul_apply, Amplitude.toComplex_ofReal]

end Gate

namespace Channel

variable {d : ℕ} {p : ℝ}

/-! ## Sums of products as matrices -/

/-- The products of matrices with their adjoints sum to the identity. -/
theorem preserving_iff {name : Json} {ops : List (Operator ℝ)} (hops : ∀ op ∈ ops, op.shape = [d, d]) :
    Preserving ⟨name, d, ops⟩ ↔
      (ops.map fun op => (Operator.matrix op d)ᴴ * Operator.matrix op d).sum = 1 := by
  have hentry (a b : Fin d) : ((total d ops).entry a b).toComplex =
      (ops.map fun op => (Operator.matrix op d)ᴴ * Operator.matrix op d).sum a b := by
    rw [toComplex_entry_total hops a.isLt b.isLt]
    clear hops
    induction ops with
    | nil => rfl
    | cons op ops ih =>
      rw [List.map_cons, List.map_cons, List.sum_cons, List.sum_cons, ih, Matrix.add_apply, mul_apply,
        sum_range]
      rfl
  constructor
  · intro h
    ext a b
    rw [← hentry, one_apply, show total d ops = Tensor.identity d from h,
      Operator.toComplex_entry_identity a.isLt b.isLt]
    simp only [Fin.ext_iff]
  · intro h
    refine Tensor.ext_entry (shape_total _ _) rfl fun a ha b hb => Amplitude.toComplex_injective ?_
    rw [hentry ⟨a, ha⟩ ⟨b, hb⟩, h, one_apply, Operator.toComplex_entry_identity ha hb]
    simp only [Fin.ext_iff]

/-- A channel on qudits of a dimension keeps the trace: all operators have the dimension, and the
products of their matrices with the adjoints sum to the identity. -/
structure KeepsTrace (d : ℕ) (channel : Channel ℝ) : Prop where
  /-- The channel is for the dimension. -/
  dim_eq : channel.dim = d
  /-- The operators have the dimension. -/
  shape : ∀ op ∈ channel.ops, op.shape = [d, d]
  /-- The products sum to the identity. -/
  sum_eq : (channel.ops.map fun op => (Operator.matrix op d)ᴴ * Operator.matrix op d).sum = 1

/-- Operators that keep the trace are not refused as those of a channel. -/
theorem create_of_keepsTrace {name : Json} (hd : 2 ≤ d) {ops : List (Operator ℝ)}
    (h : KeepsTrace d ⟨name, d, ops⟩) : create name (ops.map .operator) (.nat d) = .ok ⟨name, d, ops⟩ := by
  refine create_of_preserving name hd ?_ h.shape ((preserving_iff h.shape).mpr h.sum_eq)
  -- without operators, the sum would be zero
  intro hnil
  obtain rfl : ops = [] := hnil
  have hsum := congrFun (congrFun h.sum_eq ⟨0, by omega⟩) ⟨0, by omega⟩
  simp at hsum

/-! ## Mixtures -/

/-- The identity with the weight of no error, and errors that share the weight of one evenly. -/
noncomputable def mixture (p : ℝ) (d : ℕ) (errors : List (Operator ℝ)) : List (Operator ℝ) :=
  (Tensor.identity d).scale (√(1 - p)) :: errors.map (Tensor.scale (√(p / errors.length)))

theorem shape_mixture {errors : List (Operator ℝ)} (herrors : ∀ op ∈ errors, op.shape = [d, d]) :
    ∀ op ∈ mixture p d errors, op.shape = [d, d] := by
  rw [mixture, List.forall_mem_cons, List.forall_mem_map]
  exact ⟨rfl, herrors⟩

@[simp] theorem length_mixture (errors : List (Operator ℝ)) :
    (mixture p d errors).length = errors.length + 1 := by
  simp [mixture]

section Sums

variable {M : Type*} [AddCommGroup M] [Module ℂ M] {f : Matrix (Fin d) (Fin d) ℂ → M}
  (hf : ∀ (x : ℝ) m, f ((x : ℂ) • m) = ((x * x : ℝ) : ℂ) • f m) (hp : 0 ≤ p ∧ p ≤ 1)

include hf hp

/-- What is summed over a mixture and is quadratic, has the identity with the probability of no
error and the errors with that of an error. -/
theorem sum_mixture {errors : List (Operator ℝ)} (herrors : ∀ op ∈ errors, op.shape = [d, d]) :
    ((mixture p d errors).map fun op => f (Operator.matrix op d)).sum =
      ((1 - p : ℝ) : ℂ) • f 1 +
        ((p / errors.length : ℝ) : ℂ) • (errors.map fun op => f (Operator.matrix op d)).sum := by
  have hnone : √(1 - p) * √(1 - p) = 1 - p := Real.mul_self_sqrt (by linarith)
  have hshare : √(p / errors.length) * √(p / errors.length) = p / errors.length :=
    Real.mul_self_sqrt (div_nonneg hp.1 (Nat.cast_nonneg _))
  rw [mixture, List.map_cons, List.sum_cons, Operator.matrix_scale rfl, hf, hnone,
    Operator.matrix_identity, List.map_map]
  congr 1
  generalize √(p / errors.length) = x at hshare
  rw [← hshare]
  clear hshare
  induction errors with
  | nil => simp
  | cons op errors ih =>
    obtain ⟨hop, herrors⟩ := List.forall_mem_cons.mp herrors
    rw [List.map_cons, List.map_cons, List.sum_cons, List.sum_cons, smul_add, ← ih herrors]
    congr 1
    rw [Function.comp_apply, Operator.matrix_scale hop, hf]

end Sums

/-- A channel of unitary errors, at least one, keeps the trace. -/
theorem keepsTrace_mixture (name : Json) (hp : 0 ≤ p ∧ p ≤ 1) {errors : List (Operator ℝ)}
    (hne : errors ≠ []) (herrors : ∀ op ∈ errors, op.shape = [d, d])
    (hunitary : ∀ op ∈ errors, Operator.matrix op d ∈ unitaryGroup (Fin d) ℂ) :
    KeepsTrace d ⟨name, d, mixture p d errors⟩ := by
  refine ⟨rfl, shape_mixture herrors, ?_⟩
  have hquadratic (x : ℝ) (m : Matrix (Fin d) (Fin d) ℂ) :
      ((x : ℂ) • m)ᴴ * ((x : ℂ) • m) = ((x * x : ℝ) : ℂ) • (mᴴ * m) := by
    rw [conjTranspose_smul, Matrix.smul_mul, Matrix.mul_smul, smul_smul, Complex.star_def,
      Complex.conj_ofReal, Complex.ofReal_mul]
  -- each error contributes the identity
  have hsum : (errors.map fun op => (Operator.matrix op d)ᴴ * Operator.matrix op d).sum =
      (errors.length : ℂ) • 1 := by
    have hone : ∀ m ∈ errors.map fun op => (Operator.matrix op d)ᴴ * Operator.matrix op d, m = 1 := by
      rw [List.forall_mem_map]
      exact fun op hop => mem_unitaryGroup_iff'.mp (hunitary op hop)
    rw [List.sum_eq_card_nsmul _ _ hone, List.length_map, Nat.cast_smul_eq_nsmul]
  have hlength : (errors.length : ℝ) ≠ 0 := by
    rw [Nat.cast_ne_zero, Ne, List.length_eq_zero_iff]
    exact hne
  rw [sum_mixture (f := fun m => mᴴ * m) hquadratic hp herrors, hsum, conjTranspose_one, Matrix.one_mul,
    smul_smul, ← add_smul, ← Complex.ofReal_natCast, ← Complex.ofReal_mul, ← Complex.ofReal_add,
    div_mul_cancel₀ _ hlength, sub_add_cancel, Complex.ofReal_one, one_smul]

/-! ## The channels of the library -/

/-- A call makes a channel that keeps the trace. -/
def MakesKeeping (d : ℕ) (made : Except ChannelFault (Channel ℝ)) : Prop :=
  ∃ channel, made = .ok channel ∧ KeepsTrace d channel

/-- A call makes a channel that mixes some errors and keeps the trace. -/
def MakesMixture (p : ℝ) (d : ℕ) (errors : List (Operator ℝ)) (made : Except ChannelFault (Channel ℝ)) :
    Prop :=
  ∃ channel, made = .ok channel ∧ KeepsTrace d channel ∧ channel.ops = mixture p d errors

theorem MakesMixture.makesKeeping {errors : List (Operator ℝ)}
    {made : Except ChannelFault (Channel ℝ)} (h : MakesMixture p d errors made) :
    MakesKeeping d made := by
  obtain ⟨channel, hmade, hkeeps, -⟩ := h
  exact ⟨channel, hmade, hkeeps⟩

/-- Unitary errors of a dimension, at least one, make a mixture. -/
theorem makesMixture_create (name : Json) (hd : 2 ≤ d) (hp : 0 ≤ p ∧ p ≤ 1) {errors : List (Operator ℝ)}
    (hne : errors ≠ []) (herrors : ∀ op ∈ errors, op.shape = [d, d])
    (hunitary : ∀ op ∈ errors, Operator.matrix op d ∈ unitaryGroup (Fin d) ℂ) {x : ℝ}
    (hx : x = p / errors.length) :
    MakesMixture p d errors (create name
      (.operator ((Tensor.identity d).scale (Scalar.sqrt (1 - p))) ::
        errors.map fun op => .operator (op.scale (Scalar.sqrt x))) (.nat d)) := by
  have hkeeps := keepsTrace_mixture name hp hne herrors hunitary
  have hcreate := create_of_keepsTrace hd hkeeps
  rw [hx]
  refine ⟨_, ?_, hkeeps, rfl⟩
  rw [← hcreate, mixture, List.map_cons, List.map_map]
  rfl

section Probability

variable {p : Written ℝ} (hp : 0 ≤ p.value ∧ p.value ≤ 1)

include hp

theorem makesMixture_flip (label name : String) {error : Operator ℝ} (hshape : error.shape = [2, 2])
    (hunitary : Operator.matrix error 2 ∈ unitaryGroup (Fin 2) ℂ) :
    MakesMixture p.value 2 [error] (flip p label name error) := by
  unfold flip ofPair
  rw [checkProbability_inside hp]
  exact makesMixture_create _ (Nat.le_refl 2) hp (List.cons_ne_nil _ _)
    (List.forall_mem_singleton.mpr hshape) (List.forall_mem_singleton.mpr hunitary) (by simp)

theorem makesMixture_depolarizing :
    MakesMixture p.value 2 [Gate.pauliX, Gate.pauliY, Gate.pauliZ] (depolarizing p) := by
  unfold depolarizing
  rw [checkProbability_inside hp]
  refine makesMixture_create _ (Nat.le_refl 2) hp (List.cons_ne_nil _ _) ?_ ?_ ?_
  · simp only [List.forall_mem_cons, List.not_mem_nil, false_imp_iff, implies_true, and_true]
    exact ⟨rfl, rfl, rfl⟩
  · simp only [List.forall_mem_cons, List.not_mem_nil, false_imp_iff, implies_true, and_true]
    exact ⟨Gate.pauliX_mem_unitaryGroup, Gate.pauliY_mem_unitaryGroup, Gate.pauliZ_mem_unitaryGroup⟩
  · show p.value / (1 + 1 + 1) = p.value / ((3 : ℕ) : ℝ)
    norm_num

end Probability

/-! ### Sums over the errors of a qudit -/

section Errors

variable {M : Type*}

/-- The powers of the clock but the first one, which is the identity. -/
noncomputable def clockPowers (d : ℕ) : List (Operator ℝ) :=
  (List.range (d - 1)).map fun b => (Gate.clock d).pow (b + 1)

theorem shape_clockPowers : ∀ op ∈ clockPowers d, op.shape = [d, d] := by
  unfold clockPowers
  rw [List.forall_mem_map]
  exact fun b _ => Tensor.shape_pow rfl (b + 1)

@[simp] theorem length_clockPowers : (clockPowers d).length = d - 1 := by
  simp [clockPowers]

/-- With the identity, the errors of dephasing are all powers of the clock. -/
theorem sum_clockPowers [AddCommMonoid M] (hd : 2 ≤ d) (f : Matrix (Fin d) (Fin d) ℂ → M) :
    f 1 + ((clockPowers d).map fun op => f (Operator.matrix op d)).sum =
      ∑ b ∈ range d, f (Gate.weyl d 0 b) := by
  obtain ⟨n, rfl⟩ : ∃ n, d = n + 1 := ⟨d - 1, by omega⟩
  have hpower (b : ℕ) : Operator.matrix ((Gate.clock (n + 1)).pow (b + 1) : Operator ℝ) (n + 1) =
      Gate.weyl (n + 1) 0 (b + 1) := by
    rw [Gate.weyl_eq, Gate.rotation_zero, Matrix.one_mul, Gate.matrix_clock_pow]
  rw [sum_range_succ', Gate.weyl_zero, add_comm, clockPowers, List.map_map]
  congr 1
  show ∑ b ∈ range n, f (Operator.matrix ((Gate.clock (n + 1)).pow (b + 1)) (n + 1)) = _
  exact sum_congr rfl fun b _ => by rw [hpower]

/-- A sum over what is left of a list is one of which the other terms are zero. -/
theorem sum_filterMap_ite [AddCommMonoid M] {α β : Type*} (g : α → β) (f : β → M) (c : α → Prop)
    [DecidablePred c] (xs : List α) :
    ((xs.filterMap fun x => if c x then none else some (g x)).map f).sum =
      (xs.map fun x => if c x then 0 else f (g x)).sum := by
  induction xs with
  | nil => rfl
  | cons x xs ih =>
    by_cases h : c x
    · simp [h, ih]
    · simp [h, ih]

/-- With the identity, the errors of depolarizing are all products of powers of the shift and the
clock, each one once. -/
theorem sum_weylOperators [AddCommMonoid M] (hd : 2 ≤ d) (f : Matrix (Fin d) (Fin d) ℂ → M) :
    f 1 + ((weylOperators d).map fun op => f (Operator.matrix op d)).sum =
      ∑ a ∈ range d, ∑ b ∈ range d, f (Gate.weyl d a b) := by
  have hfirst : ((0, 0) : ℕ × ℕ) ∈ range d ×ˢ range d :=
    mem_product.mpr ⟨mem_range.mpr (by omega), mem_range.mpr (by omega)⟩
  have hpairs (h : ℕ × ℕ → M) :
      ((((List.range d).flatMap fun a => (List.range d).map fun b => (a, b))).map h).sum =
        ∑ x ∈ range d ×ˢ range d, h x := by
    rw [sum_product, List.map_flatMap, List.flatMap_def, List.sum_flatten, List.map_map]
    simp only [List.map_map]
    rfl
  have hrest : ((weylOperators d).map fun op => f (Operator.matrix op d)).sum =
      ∑ x ∈ (range d ×ˢ range d).erase (0, 0), f (Gate.weyl d x.1 x.2) := by
    unfold weylOperators
    rw [sum_filterMap_ite, hpairs, ← sum_erase _ (a := (0, 0))]
    · refine sum_congr rfl fun x hx => if_neg fun hzero => ?_
      exact ne_of_mem_erase hx (Prod.ext hzero.1 hzero.2)
    · exact if_pos ⟨rfl, rfl⟩
  rw [hrest, ← Gate.weyl_zero, add_sum_erase _ (fun x : ℕ × ℕ => f (Gate.weyl d x.1 x.2)) hfirst,
    sum_product]

@[simp] theorem length_weylOperators (hd : 2 ≤ d) :
    (weylOperators d : List (Operator ℝ)).length = d * d - 1 := by
  have hsum := sum_weylOperators hd fun _ => 1
  simp only [List.map_const', List.sum_replicate, sum_const, card_range, smul_eq_mul, mul_one] at hsum
  omega

end Errors

section Qudits

variable {p : Written ℝ} (hp : 0 ≤ p.value ∧ p.value ≤ 1) (hd : 2 ≤ d)

include hp hd

theorem makesMixture_quditDepolarizing :
    MakesMixture p.value d (weylOperators d) (quditDepolarizing p (.nat d)) := by
  have hdim : quditDimension (.nat d) = .ok d := (quditDimension_eq_ok_iff d d).mpr ⟨hd, rfl⟩
  have hlength : (weylOperators d : List (Operator ℝ)).length = d * d - 1 := length_weylOperators hd
  have hpos : 2 * 2 ≤ d * d := Nat.mul_le_mul hd hd
  unfold quditDepolarizing
  rw [checkProbability_inside hp, hdim]
  refine makesMixture_create _ hd hp (List.ne_nil_of_length_pos (by omega)) shape_weylOperators ?_ ?_
  · intro op hop
    obtain ⟨⟨a, b⟩, -, hop⟩ := List.mem_filterMap.mp hop
    dsimp only at hop
    split at hop
    · cases hop
    · cases hop
      exact Gate.weyl_mem_unitaryGroup a b
  · rw [hlength]
    rfl

theorem makesMixture_quditDephasing :
    MakesMixture p.value d (clockPowers d) (quditDephasing p (.nat d)) := by
  have hdim : quditDimension (.nat d) = .ok d := (quditDimension_eq_ok_iff d d).mpr ⟨hd, rfl⟩
  have hne : clockPowers d ≠ [] := List.ne_nil_of_length_pos (by rw [length_clockPowers]; omega)
  have hunitary : ∀ op ∈ clockPowers d, Operator.matrix op d ∈ unitaryGroup (Fin d) ℂ := by
    unfold clockPowers
    rw [List.forall_mem_map]
    intro b _
    rw [Operator.matrix_pow rfl]
    exact pow_mem Gate.clock_mem_unitaryGroup (b + 1)
  have hshare : p.value / Scalar.ofNat (d - 1) = p.value / (clockPowers d).length := by
    rw [length_clockPowers]
    rfl
  have hmade := makesMixture_create (.string ("qudit_dephasing(p=" ++ p.text ++ ", d=" ++
    (Argument.nat d).text ++ ")")) hd hp hne shape_clockPowers hunitary hshare
  unfold quditDephasing
  rw [checkProbability_inside hp, hdim]
  -- the operators are made in one go
  rw [clockPowers, List.map_map] at hmade
  exact hmade

end Qudits

theorem sqrt_mul_sqrt {x : ℝ} (hx : 0 ≤ x) :
    ((Scalar.sqrt x : ℝ) : ℂ) * (Scalar.sqrt x : ℝ) = x := by
  rw [← Complex.ofReal_mul]
  exact congrArg _ (Real.mul_self_sqrt hx)

section Damping

variable {gamma : Written ℝ} (hgamma : 0 ≤ gamma.value ∧ gamma.value ≤ 1)

include hgamma

/-- A damping keeps a part of the upper state of a qubit. If the other part goes to the two states
and has the parameter as its weight, the trace is kept. -/
theorem makesKeeping_damping (name : String) {a b : Amplitude ℝ}
    (hweight : star a.toComplex * a.toComplex + star b.toComplex * b.toComplex = gamma.value) :
    MakesKeeping 2
      (ofPair name (Gate.ofRows [[1, 0], [0, .ofReal (Scalar.sqrt (1 - gamma.value))]])
        (Gate.ofRows [[0, a], [0, b]])) := by
  set kept : Operator ℝ := Gate.ofRows [[1, 0], [0, .ofReal (Scalar.sqrt (1 - gamma.value))]] with hkept
  set lost : Operator ℝ := Gate.ofRows [[0, a], [0, b]] with hlost
  have hroot := sqrt_mul_sqrt (show 0 ≤ 1 - gamma.value by linarith)
  have hproduct : (Operator.matrix lost 2)ᴴ * Operator.matrix lost 2 =
      !![0, 0; 0, (gamma.value : ℂ)] := by
    rw [hlost, Gate.matrix_ofRows]
    ext i j
    fin_cases i <;> fin_cases j <;> simp [mul_apply, ← hweight]
  have hsum : (Operator.matrix kept 2)ᴴ * Operator.matrix kept 2 +
      (Operator.matrix lost 2)ᴴ * Operator.matrix lost 2 = 1 := by
    rw [hproduct, hkept, Gate.matrix_ofRows]
    ext i j
    fin_cases i <;> fin_cases j <;> simp [mul_apply, Amplitude.toComplex_ofReal, hroot]
  have hkeeps : KeepsTrace 2 ⟨.string name, 2, [kept, lost]⟩ := by
    refine ⟨rfl, ?_, ?_⟩
    · simp only [List.forall_mem_cons, List.not_mem_nil, false_imp_iff, implies_true, and_true]
      exact ⟨rfl, rfl⟩
    · simpa using hsum
  exact ⟨_, create_of_keepsTrace (Nat.le_refl 2) hkeeps, hkeeps⟩

theorem makesKeeping_amplitudeDamping : MakesKeeping 2 (amplitudeDamping gamma) := by
  unfold amplitudeDamping
  rw [checkProbability_inside hgamma]
  refine makesKeeping_damping hgamma _ ?_
  simp [Amplitude.toComplex_ofReal, sqrt_mul_sqrt hgamma.1]

theorem makesKeeping_phaseDamping : MakesKeeping 2 (phaseDamping gamma) := by
  unfold phaseDamping
  rw [checkProbability_inside hgamma]
  refine makesKeeping_damping hgamma _ ?_
  simp [Amplitude.toComplex_ofReal, sqrt_mul_sqrt hgamma.1]

end Damping

/-- For a probability, every channel of a qubit is made and keeps the trace, and in every dimension
so do both channels of a qudit, which have an operator for each pair of powers and for each power.
-/
theorem probability_keepsTrace (p : Written ℝ) (hp : 0 ≤ p.value ∧ p.value ≤ 1) :
    (∀ made ∈ qubitChannels p, ∃ channel, made = .ok channel ∧ KeepsTrace 2 channel) ∧
      ∀ d, 2 ≤ d →
        (∃ channel, quditDepolarizing p (.nat d) = .ok channel ∧ KeepsTrace d channel ∧
          channel.ops.length = d ^ 2) ∧
        ∃ channel, quditDephasing p (.nat d) = .ok channel ∧ KeepsTrace d channel ∧
          channel.ops.length = d := by
  constructor
  · unfold qubitChannels
    simp only [List.forall_mem_cons, List.not_mem_nil, false_imp_iff, implies_true, and_true]
    exact ⟨(makesMixture_flip hp _ _ rfl Gate.pauliX_mem_unitaryGroup).makesKeeping,
      (makesMixture_flip hp _ _ rfl Gate.pauliZ_mem_unitaryGroup).makesKeeping,
      (makesMixture_flip hp _ _ rfl Gate.pauliY_mem_unitaryGroup).makesKeeping,
      (makesMixture_depolarizing hp).makesKeeping, makesKeeping_amplitudeDamping hp,
      makesKeeping_phaseDamping hp⟩
  · intro d hd
    have hpos : 2 * 2 ≤ d * d := Nat.mul_le_mul hd hd
    obtain ⟨depolarizing, hdepolarizing, hkeeps, hops⟩ := makesMixture_quditDepolarizing hp hd
    obtain ⟨dephasing, hdephasing, hkeeps', hops'⟩ := makesMixture_quditDephasing hp hd
    refine ⟨⟨_, hdepolarizing, hkeeps, ?_⟩, _, hdephasing, hkeeps', ?_⟩
    · rw [hops, length_mixture, length_weylOperators hd, pow_two]
      omega
    · rw [hops', length_mixture, length_clockPowers]
      omega

/-- The channels for one half and, of a qudit, in dimension three. -/
theorem half_keepsTrace :
    ((0 : ℝ) ≤ 1 / 2 ∧ (1 / 2 : ℝ) ≤ 1) ∧ 2 ≤ 3 ∧
      (∀ made ∈ qubitChannels ⟨(1 / 2 : ℝ), "0.5"⟩, ∃ channel, made = .ok channel ∧
        KeepsTrace 2 channel) ∧
      (∃ channel, quditDepolarizing ⟨(1 / 2 : ℝ), "0.5"⟩ (.nat 3) = .ok channel ∧
        KeepsTrace 3 channel ∧ channel.ops.length = 9) ∧
      ∃ channel, quditDephasing ⟨(1 / 2 : ℝ), "0.5"⟩ (.nat 3) = .ok channel ∧
        KeepsTrace 3 channel ∧ channel.ops.length = 3 := by
  have hhalf : (0 : ℝ) ≤ 1 / 2 ∧ (1 / 2 : ℝ) ≤ 1 := by norm_num
  obtain ⟨hqubit, hqudit⟩ := probability_keepsTrace ⟨1 / 2, "0.5"⟩ hhalf
  exact ⟨hhalf, by decide, hqubit, hqudit 3 (by decide)⟩

end Channel

end QuditSim
