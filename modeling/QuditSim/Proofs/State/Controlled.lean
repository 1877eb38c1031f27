import QuditSim.Proofs.State.Axes

/-!
# The generalized controlled operator

Under control, an operator is raised to the power of the common digit of the controls. This module
says so of every single amplitude, with the powers of a complex matrix, and of the whole vector, as
the computation on a tensor of which the axes are moved.

- `StateVector.amplitude_of_agreeing` and `StateVector.amplitude_of_disagreeing` are the amplitudes
  where the controls have one value and where they have not.
- `StateVector.controlledByAxes` moves the axes of the controls and the targets to the front,
  multiplies the slices on which all controls have one value, and moves the axes back.
  `StateVector.applyControlledOn_eq_byAxes` says that this is the operation.
- `StateVector.applyControlled_amplitude` is the operation on positions of a register.
-/

open Finset

namespace QuditSim

namespace StateVector

variable {d n : ℕ}

/-! ## Values of controls -/

section Controls

variable {controls : List ℕ} {x v : ℕ}

/-- The controls have a value just if all of them have it as their digit. -/
theorem controlValue?_eq_some_iff (hne : controls ≠ []) :
    controlValue? d controls x = some v ↔ ∀ q ∈ controls, digit d q x = v := by
  obtain ⟨c, cs, rfl⟩ := List.exists_cons_of_ne_nil hne
  have hagree : (cs.all fun q => digit d q x == digit d c x) = true ↔
      ∀ q ∈ cs, digit d q x = digit d c x := by
    rw [List.all_eq_true]
    simp only [beq_iff_eq]
  unfold controlValue?
  dsimp only
  by_cases hall : ∀ q ∈ cs, digit d q x = digit d c x
  · rw [if_pos (hagree.mpr hall), Option.some_inj, List.forall_mem_cons]
    constructor
    · rintro rfl
      exact ⟨rfl, hall⟩
    · exact fun h => h.1
  · rw [if_neg (mt hagree.mp hall), List.forall_mem_cons]
    simp only [reduceCtorEq, false_iff]
    exact fun h => hall fun q hq => (h.2 q hq).trans h.1.symm

/-- The controls have no value just if two of them disagree. -/
theorem controlValue?_eq_none_iff (hne : controls ≠ []) :
    controlValue? d controls x = none ↔
      ∃ q ∈ controls, ∃ q' ∈ controls, digit d q x ≠ digit d q' x := by
  rw [← not_iff_not, ← ne_eq, Option.ne_none_iff_exists']
  simp only [controlValue?_eq_some_iff hne, not_exists, not_and, not_not]
  constructor
  · rintro ⟨v, hv⟩ q hq q' hq'
    exact (hv q hq).trans (hv q' hq').symm
  · intro h
    obtain ⟨c, hc⟩ := List.exists_mem_of_ne_nil controls hne
    exact ⟨digit d c x, fun q hq => h q hq c hc⟩

/-- A common digit of controls is one of the base. -/
theorem lt_of_controls (hd : 0 < d) (hne : controls ≠ []) (h : ∀ q ∈ controls, digit d q x = v) :
    v < d := by
  obtain ⟨c, hc⟩ := List.exists_mem_of_ne_nil controls hne
  rw [← h c hc]
  exact digit_lt hd c x

end Controls

/-! ## Amplitudes -/

section Amplitudes

variable {R : Type} [Scalar R] {op : Operator R} {controls targets : List ℕ}
  {state : StateVector R} {x v : ℕ}

/-- Where controls disagree, the amplitude stays. -/
theorem amplitude_of_disagreeing (hne : controls ≠ []) (hx : x < state.size)
    (h : ∃ q ∈ controls, ∃ q' ∈ controls, digit d q x ≠ digit d q' x) :
    (applyControlledOn d op controls targets state).amplitude x = state.amplitude x := by
  unfold applyControlledOn
  rw [amplitude_build _ hx, (controlValue?_eq_none_iff hne).mpr h]

/-- Where all controls are zero, the amplitude stays. -/
theorem amplitude_of_zeros (hne : controls ≠ []) (hx : x < state.size)
    (h : ∀ q ∈ controls, digit d q x = 0) :
    (applyControlledOn d op controls targets state).amplitude x = state.amplitude x := by
  unfold applyControlledOn
  rw [amplitude_build _ hx, (controlValue?_eq_some_iff hne).mpr h]
  rfl

/-- Where all controls have a value that is not zero, this power of the operator acts. -/
theorem amplitude_of_value (hd : 0 < d) (hne : controls ≠ []) (hx : x < state.size) (hv : v ≠ 0)
    (h : ∀ q ∈ controls, digit d q x = v) :
    (applyControlledOn d op controls targets state).amplitude x =
      Tensor.inner ((op.pow v).entry (readDigits d targets x))
        (fun b => state.amplitude (placeDigits d targets b x)) (d ^ targets.length) := by
  have hlt : v < d := lt_of_controls hd hne h
  obtain ⟨e, rfl⟩ : ∃ e, v = e + 1 := ⟨v - 1, by omega⟩
  unfold applyControlledOn
  rw [amplitude_build _ hx, (controlValue?_eq_some_iff hne).mpr h]
  simp only [Array.getD_eq_getD_getElem?, Array.getElem?_ofFn, hlt, dif_pos, Option.getD_some]

end Amplitudes

/-- Where all controls have a common value, this power of the matrix acts, be it the identity. -/
theorem amplitude_of_agreeing (hd : 2 ≤ d) {op : Operator ℝ} {controls targets : List ℕ}
    (hne : controls ≠ []) (hnodup : targets.Nodup)
    (hop : op.shape = [d ^ targets.length, d ^ targets.length]) {state : StateVector ℝ} {x v : ℕ}
    (hx : x < state.size) (h : ∀ q ∈ controls, digit d q x = v) :
    ((applyControlledOn d op controls targets state).amplitude x).toComplex =
      ∑ b, (op.matrix (d ^ targets.length) ^ v) (spelledRow (by omega) targets x) b *
        (state.amplitude (placeDigits d targets b x)).toComplex := by
  have hpos : 0 < d := by omega
  rcases Nat.eq_zero_or_pos v with rfl | hv
  · -- of the sum over the identity, the term of the digits that are there remains
    rw [amplitude_of_zeros hne hx h, pow_zero,
      sum_eq_single (spelledRow hpos targets x) ?_ fun hnot => absurd (mem_univ _) hnot,
      Matrix.one_apply_eq, one_mul]
    · exact congrArg (fun x => (state.amplitude x).toComplex)
        (placeDigits_readDigits hd hnodup x).symm
    · intro b _ hb
      rw [Matrix.one_apply_ne hb.symm, zero_mul]
  · rw [amplitude_of_value hpos hne hx hv.ne' h, Tensor.toComplex_inner, sum_range,
      ← Operator.matrix_pow hop]
    rfl

/-! ## Moved axes -/

section Axes

variable {R : Type} [Scalar R]

/-- Overwrites the slice on which the first `m` axes have one value. The slice is read from the moved
amplitudes as a matrix of `block` rows and `rest` columns, and multiplied by the power. -/
def overwriteSlice (d m block rest : ℕ) (op : Operator R) (moved out : StateVector R) (v : ℕ) :
    StateVector R :=
  build out.size fun z =>
    let slice := z / rest / block
    if slice = ofDigits d m fun _ => v then
      Tensor.inner ((op.pow v).entry (z / rest % block))
        (fun b => moved.amplitude ((slice * block + b) * rest + z % rest)) block
    else out.amplitude z

/-- The state after an operator acted under control, with the axes of the controls and the targets
moved to the front and back. -/
def controlledByAxes (d n : ℕ) (op : Operator R) (controls targets : List ℕ)
    (state : StateVector R) : StateVector R :=
  let order := axisOrder n (controls ++ targets)
  let moved := moveAxes d order state
  let rest := d ^ (n - controls.length - targets.length)
  restoreAxes d order <| (List.range' 1 (d - 1)).foldl
    (overwriteSlice d controls.length (d ^ targets.length) rest op moved) moved

/-! ## Overwritten slices -/

section Slices

variable {m block rest : ℕ} {op : Operator R} {moved out : StateVector R}

@[simp] theorem size_foldl_overwriteSlice (values : List ℕ) :
    (values.foldl (overwriteSlice d m block rest op moved) out).size = out.size := by
  induction values generalizing out with
  | nil => rfl
  | cons v values ih => rw [List.foldl_cons, ih, overwriteSlice, size_build]

/-- An amplitude off all slices that are overwritten stays. -/
theorem amplitude_foldl_of_forall_ne {values : List ℕ} {z : ℕ} (hz : z < out.size)
    (h : ∀ v ∈ values, z / rest / block ≠ ofDigits d m fun _ => v) :
    (values.foldl (overwriteSlice d m block rest op moved) out).amplitude z = out.amplitude z := by
  induction values generalizing out with
  | nil => rfl
  | cons v values ih =>
    obtain ⟨hv, hvalues⟩ := List.forall_mem_cons.mp h
    rw [List.foldl_cons, ih (by rwa [overwriteSlice, size_build]) hvalues, overwriteSlice,
      amplitude_build _ hz]
    exact if_neg hv

/-- An amplitude of a slice that is overwritten once is that of the product. -/
theorem amplitude_foldl_of_mem {values : List ℕ} (hnodup : values.Nodup) {z v : ℕ}
    (hz : z < out.size) (hv : v ∈ values)
    (h : ∀ u ∈ values, (z / rest / block = ofDigits d m fun _ => u) ↔ u = v) :
    (values.foldl (overwriteSlice d m block rest op moved) out).amplitude z =
      Tensor.inner ((op.pow v).entry (z / rest % block))
        (fun b => moved.amplitude ((z / rest / block * block + b) * rest + z % rest)) block := by
  induction values generalizing out with
  | nil => cases hv
  | cons u values ih =>
    obtain ⟨hu, hrest⟩ := List.nodup_cons.mp hnodup
    obtain ⟨hfirst, hvalues⟩ := List.forall_mem_cons.mp h
    rw [List.foldl_cons]
    by_cases heq : u = v
    · -- the slice is written now and not again
      subst heq
      rw [amplitude_foldl_of_forall_ne (by rwa [overwriteSlice, size_build]) fun w hw hslice =>
        hu (((hvalues w hw).mp hslice) ▸ hw), overwriteSlice, amplitude_build _ hz]
      exact if_pos (hfirst.mpr rfl)
    · have hmem : v ∈ values := (List.mem_cons.mp hv).resolve_left (Ne.symm heq)
      exact ih hrest (by rwa [overwriteSlice, size_build]) hmem hvalues

/-- The controls spell a slice of one value just if each of them has the value. -/
theorem readDigits_eq_ofDigits_iff (hd : 0 < d) {v : ℕ} (hv : v < d) (ps : List ℕ) (x : ℕ) :
    (readDigits d ps x = ofDigits d ps.length fun _ => v) ↔ ∀ q ∈ ps, digit d q x = v := by
  have hdigits : ∀ k, ofDigits d k (fun _ => v) < d ^ k := fun k => ofDigits_lt fun _ _ => hv
  induction ps with
  | nil => simp [ofDigits]
  | cons p ps ih =>
    have hlow := readDigits_lt hd ps x
    have hconst := hdigits ps.length
    have hpos : 0 < d ^ ps.length := Nat.pow_pos hd
    rw [List.forall_mem_cons, readDigits_cons, List.length_cons, ofDigits]
    refine Iff.trans ?_ (and_congr_right fun _ => ih)
    constructor
    · intro h
      -- both sides have a quotient and a remainder
      have hdiv := congrArg (· / d ^ ps.length) h
      have hmod := congrArg (· % d ^ ps.length) h
      simp only [Nat.add_comm _ (readDigits d ps x), Nat.add_mul_div_right _ _ hpos,
        Nat.div_eq_of_lt hlow, Nat.div_eq_of_lt hconst, Nat.zero_add] at hdiv
      simp only [Nat.add_comm _ (readDigits d ps x), Nat.add_mul_mod_self_right,
        Nat.mod_eq_of_lt hlow, Nat.mod_eq_of_lt hconst] at hmod
      exact ⟨hdiv, hmod⟩
    · rintro ⟨hdigit, hrest⟩
      rw [hdigit, hrest, Nat.add_comm]

end Slices

section Agreement

variable {op : Operator R} {controls targets : List ℕ} {state : StateVector R}
  (hnodup : (controls ++ targets).Nodup) (hrange : ∀ q ∈ controls ++ targets, q < n)

include hnodup hrange

/-- An operator acts under control as the computation with moved axes says. -/
theorem applyControlledOn_eq_byAxes (hd : 2 ≤ d) (hne : controls ≠ [])
    (hsize : state.size = d ^ n) :
    applyControlledOn d op controls targets state =
      controlledByAxes d n op controls targets state := by
  have hpos : 0 < d := by omega
  have horder := axisOrder_perm hnodup hrange
  obtain ⟨others, hothers, hlength, hsplit⟩ := exists_readDigits_order (d := d) hnodup hrange
  unfold controlledByAxes
  dsimp only
  rw [← hlength]
  set order := axisOrder n (controls ++ targets)
  have hsizes : (moveAxes d order state).size = d ^ n := by rw [moveAxes, size_build, hsize]
  apply ext_amplitude
  · rw [applyControlledOn, restoreAxes, size_build, size_build, size_foldl_overwriteSlice, hsizes,
      hsize]
  intro x hx
  rw [applyControlledOn, size_build] at hx
  have hxn : x < d ^ n := hsize ▸ hx
  have hz : readDigits d order x < (moveAxes d order state).size :=
    hsizes ▸ readDigits_order_lt hpos horder x
  -- the parts of the index to which the axes of this one are moved
  obtain ⟨hslice, hrow, hcolumn⟩ := parts_of_split (readDigits_lt hpos targets x)
    (readDigits_lt hpos others x) (readDigits d controls x)
  rw [← hsplit] at hslice hrow hcolumn
  -- the slices that are overwritten are those of the values from one on
  have hvalues (u : ℕ) (hu : u ∈ List.range' 1 (d - 1)) :
      (readDigits d order x / d ^ others.length / d ^ targets.length =
        ofDigits d controls.length fun _ => u) ↔ ∀ q ∈ controls, digit d q x = u := by
    rw [List.mem_range'_1] at hu
    rw [hslice, readDigits_eq_ofDigits_iff hpos (by omega)]
  rw [restoreAxes, amplitude_build _ (by rwa [size_foldl_overwriteSlice, hsizes])]
  by_cases hagree : ∃ v, v ≠ 0 ∧ ∀ q ∈ controls, digit d q x = v
  · obtain ⟨v, hv, hall⟩ := hagree
    obtain ⟨c, hc⟩ := List.exists_mem_of_ne_nil controls hne
    have hlt : v < d := lt_of_controls hpos hne hall
    have hmem : v ∈ List.range' 1 (d - 1) := List.mem_range'_1.mpr (by omega)
    rw [amplitude_of_value hpos hne hx hv hall,
      amplitude_foldl_of_mem List.nodup_range' hz hmem fun u hu => (hvalues u hu).trans
        ⟨fun h => (h c hc).symm.trans (hall c hc), fun h => h ▸ hall⟩,
      hrow, hslice, hcolumn]
    -- a column of the slice is the index with the digits of the column at the targets
    refine Tensor.inner_congr (fun _ _ => rfl) fun b hb => ?_
    exact (amplitude_moveAxes_column hd hnodup hrange hothers hsplit hsize hxn hb).symm
  · rw [amplitude_foldl_of_forall_ne hz fun u hu hslice => hagree
      ⟨u, by rw [List.mem_range'_1] at hu; omega, (hvalues u hu).mp hslice⟩,
      amplitude_moveAxes hd horder hsize hxn]
    by_cases hdisagree : ∃ q ∈ controls, ∃ q' ∈ controls, digit d q x ≠ digit d q' x
    · exact amplitude_of_disagreeing hne hx hdisagree
    · push Not at hdisagree
      refine amplitude_of_zeros hne hx fun q hq => ?_
      by_contra hnonzero
      exact hagree ⟨_, hnonzero, fun q' hq' => hdisagree q' hq' q hq⟩

end Agreement

end Axes

/-! ## Positions of a register -/

/-- On positions of a register that differ, an operator acts under control without a fault, and the
state becomes the one that the computation with moved axes gives. Where the controls have one value,
the amplitude becomes the sum over the row of this power of the matrix; where two of them disagree
and where all of them are zero, it stays. -/
theorem applyControlled_amplitude (hd : 2 ≤ d) {op : Operator ℝ} {controls targets : List ℕ}
    {state : StateVector ℝ} (hsize : state.size = d ^ n) (hcontrols : controls ≠ [])
    (htargets : targets ≠ []) (hnodup : (controls ++ targets).Nodup)
    (hrange : ∀ q ∈ controls ++ targets, q < n)
    (hop : op.shape = [d ^ targets.length, d ^ targets.length]) :
    ∃ out, state.applyControlled false op (controls.map .nat) (targets.map .nat) (.nat d) = .ok out ∧
      out = controlledByAxes d n op controls targets state ∧ out.size = d ^ n ∧
      ∀ x < d ^ n, ∃ row source, Summed d n targets x row source ∧
        (∀ v, (∀ q ∈ controls, digit d q x = v) → (out.amplitude x).toComplex =
          ∑ b, (op.matrix (d ^ targets.length) ^ v) row b *
            (state.amplitude (source b)).toComplex) ∧
        ((∃ q ∈ controls, ∃ q' ∈ controls, digit d q x ≠ digit d q' x) →
          out.amplitude x = state.amplitude x) ∧
        ((∀ q ∈ controls, digit d q x = 0) → out.amplitude x = state.amplitude x) := by
  obtain ⟨hcontrolsNodup, htargetsNodup, hdisjoint⟩ := List.nodup_append'.mp hnodup
  have hcontrolsRange : ∀ q ∈ controls, q < n := fun q hq => hrange q (List.mem_append_left _ hq)
  have htargetsRange : ∀ q ∈ targets, q < n := fun q hq => hrange q (List.mem_append_right _ hq)
  have happly : state.applyControlled false op (controls.map .nat) (targets.map .nat) (.nat d) =
      .ok (applyControlledOn d op controls targets state) := by
    have hapart : ∀ q ∈ controls.map fun q : ℕ => (q : Int),
        q ∉ targets.map fun q : ℕ => (q : Int) := by
      intro i hi hi'
      obtain ⟨q, hq, rfl⟩ := List.mem_map.mp hi
      obtain ⟨q', hq', hcast⟩ := List.mem_map.mp hi'
      obtain rfl : q' = q := Int.ofNat_inj.mp hcast
      exact hdisjoint hq hq'
    rw [← map_int_natCast, ← map_int_natCast,
      applyControlled_eq hd hsize (targetList_natCast hcontrols hcontrolsNodup hcontrolsRange)
        (targetList_natCast htargets htargetsNodup htargetsRange) hapart (by rwa [List.length_map]),
      map_toNat_natCast, map_toNat_natCast]
    rfl
  refine ⟨_, happly, applyControlledOn_eq_byAxes hnodup hrange hd hcontrols hsize,
    by rw [applyControlledOn, size_build, hsize], fun x hx => ?_⟩
  have hx' : x < state.size := hsize ▸ hx
  exact ⟨_, _, (summed_iff hd htargetsNodup htargetsRange hx).mpr ⟨rfl, rfl⟩,
    fun v h => amplitude_of_agreeing hd hcontrols htargetsNodup hop hx' h,
    amplitude_of_disagreeing hcontrols hx', amplitude_of_zeros hcontrols hx'⟩

/-- On three qutrits, with the highest and the lowest one as controls: the amplitude of `|1, 1, 1⟩` is
taken to `|1, 0, 1⟩` where the operator lowers the middle qutrit, and that of an index on which the
controls disagree stays. -/
theorem applyControlled_amplitude_qutrits :
    let op : Operator ℝ := Tensor.matrix 3 3 fun i j => if i + 1 = j then 1 else 0
    let state : StateVector ℝ := basisState 27 13
    state.size = 3 ^ 3 ∧ ([2, 0] ++ [1]).Nodup ∧ (∀ q ∈ [2, 0] ++ [1], q < 3) ∧
      op.shape = [3 ^ [1].length, 3 ^ [1].length] ∧
      ∃ out, state.applyControlled false op ([2, 0].map .nat) ([1].map .nat) (.nat 3) = .ok out ∧
        (out.amplitude 10).toComplex = 1 ∧ out.amplitude 9 = state.amplitude 9 := by
  intro op state
  have hsize : state.size = 3 ^ 3 := size_build _ _
  have hnodup : ([2, 0] ++ [1]).Nodup := by decide
  have hrange : ∀ q ∈ [2, 0] ++ [1], q < 3 := by decide
  have hop : op.shape = [3 ^ [1].length, 3 ^ [1].length] := rfl
  refine ⟨hsize, hnodup, hrange, hop, ?_⟩
  obtain ⟨out, hout, -, -, hamplitude⟩ := applyControlled_amplitude (by decide) hsize
    (List.cons_ne_nil _ _) (List.cons_ne_nil _ _) hnodup hrange hop
  refine ⟨out, hout, ?_, ?_⟩
  · obtain ⟨row, source, hsummed, hvalue, -⟩ := hamplitude 10 (by decide)
    obtain ⟨rfl, rfl⟩ := (summed_iff (by decide) (by decide) (by decide) (by decide)).mp hsummed
    rw [hvalue 1 (by decide), pow_one]
    refine (Fin.sum_univ_three _).trans ?_
    -- the row of the middle digit meets the indices with each digit in its place
    show (op.entry 0 0).toComplex * (state.amplitude 10).toComplex +
      (op.entry 0 1).toComplex * (state.amplitude 13).toComplex +
      (op.entry 0 2).toComplex * (state.amplitude 16).toComplex = 1
    have hentry : ∀ j < 3, op.entry 0 j = if 0 + 1 = j then 1 else 0 :=
      fun j hj => Tensor.entry_matrix _ (by decide) hj
    have hstate : ∀ y < 27, state.amplitude y = if y = 13 then 1 else 0 :=
      fun y hy => amplitude_build _ hy
    rw [hentry 0 (by decide), hentry 1 (by decide), hentry 2 (by decide), hstate 10 (by decide),
      hstate 13 (by decide), hstate 16 (by decide)]
    simp
  · obtain ⟨-, -, -, -, hdisagree, -⟩ := hamplitude 9 (by decide)
    exact hdisagree ⟨2, by decide, 0, by decide, by decide⟩

end StateVector

end QuditSim
