import Mathlib.Algebra.BigOperators.Fin
import Mathlib.Data.Matrix.Mul
import QuditSim.Proofs.Exact
import QuditSim.Proofs.Placing
import QuditSim.Proofs.Tensor.Entries

/-!
# Registers as tensors

The amplitudes of a register are a tensor with an axis for each position. An operator acts on some
of the axes: they are moved to the front, the tensor is read as a matrix with a row for each number
that they spell, and after the multiplication the axes are moved back. This module has what that is
described with, for single amplitudes and for the whole vector.

- `StateVector.Summed` names what is summed over for an amplitude: the row that the target digits
  spell, and the indices with other digits at the targets. `StateVector.summed_iff` says that there
  is just one choice of them.
- `StateVector.moveAxes` and `StateVector.restoreAxes` move the axes of some positions to the front and
  back. `StateVector.exists_readDigits_order` splits a moved index into the axes at the front and the
  others.
-/

open Finset

namespace QuditSim

/-! ## Operators as matrices -/

section Matrices

variable {op : Operator ℝ} {k : ℕ}

/-- The complex matrix of an operator. -/
noncomputable def Operator.matrix (op : Operator ℝ) (k : ℕ) : Matrix (Fin k) (Fin k) ℂ :=
  .of fun i j => (op.entry i j).toComplex

theorem Operator.matrix_mul {other : Operator ℝ} (hop : op.shape = [k, k])
    (hother : other.shape = [k, k]) :
    Operator.matrix (op * other) k = Operator.matrix op k * Operator.matrix other k := by
  ext i j
  show ((op * other).entry i j).toComplex = _
  rw [Tensor.entry_mul hop hother i.isLt j.isLt, Tensor.toComplex_inner, Matrix.mul_apply,
    sum_range]
  rfl

theorem Operator.matrix_identity : Operator.matrix (Tensor.identity k : Operator ℝ) k = 1 := by
  ext i j
  show ((Tensor.identity k : Operator ℝ).entry i j).toComplex = _
  rw [Tensor.entry_identity i.isLt j.isLt, Matrix.one_apply]
  by_cases h : i = j
  · rw [if_pos h, if_pos (congrArg Fin.val h), Amplitude.toComplex_one]
  · rw [if_neg h, if_neg fun hval => h (Fin.ext hval), Amplitude.toComplex_zero]

/-- The powers of an operator are those of its matrix. -/
theorem Operator.matrix_pow (hop : op.shape = [k, k]) (v : ℕ) :
    Operator.matrix (op.pow v) k = Operator.matrix op k ^ v :=
  Tensor.map_pow (f := fun op : Operator ℝ => Operator.matrix op k)
    (fun _ _ ha hb => Operator.matrix_mul ha hb) Operator.matrix_identity hop v

end Matrices

/-- Inner products of sequences that agree as far as they are summed. -/
theorem Tensor.inner_congr {K : Type} [Zero K] [One K] [Add K] [Mul K] {f f' g g' : ℕ → K} {k : ℕ}
    (hf : ∀ i < k, f i = f' i) (hg : ∀ i < k, g i = g' i) :
    Tensor.inner f g k = Tensor.inner f' g' k :=
  congrArg (1 * ·) (sumTo_congr fun i hi => by rw [hf i hi, hg i hi])

/-! ## Digits that are spelled -/

section Spelling

variable {d : ℕ}

/-- The number that positions spell is the sum of their digits with their weights. -/
theorem readDigits_eq_sum (ps : List ℕ) (x : ℕ) :
    readDigits d ps x = ∑ i : Fin ps.length, digit d ps[i] x * d ^ (ps.length - 1 - i) := by
  induction ps with
  | nil => rfl
  | cons p ps ih =>
    rw [readDigits_cons, ih]
    refine Eq.symm ((Fin.sum_univ_succ _).trans ?_)
    congr 1
    refine sum_congr rfl fun i _ => ?_
    have hi := i.isLt
    congr 2
    simp only [List.length_cons, Fin.val_succ]
    omega

/-- The digits of a spelled number are those of the positions, the first one most significant. -/
theorem digit_readDigits (hd : 0 < d) (ps : List ℕ) (x : ℕ) (i : Fin ps.length) :
    digit d (ps.length - 1 - i) (readDigits d ps x) = digit d ps[i] x := by
  induction ps with
  | nil => exact i.elim0
  | cons p ps ih =>
    have hlow := readDigits_lt hd ps x
    have hpos : 0 < d ^ ps.length := Nat.pow_pos hd
    rw [readDigits_cons]
    -- what the other positions spell is below the weight of the first one
    refine Fin.cases ?_ (fun i => ?_) i
    · show (digit d p x * d ^ ps.length + readDigits d ps x) / d ^ (ps.length + 1 - 1 - 0) % d = _
      rw [Nat.add_sub_cancel, Nat.sub_zero, Nat.mul_comm, Nat.mul_add_div hpos,
        Nat.div_eq_of_lt hlow, Nat.add_zero]
      exact Nat.mod_eq_of_lt (digit_lt hd p x)
    · have hi := i.isLt
      have hplace : (p :: ps).length - 1 - (i.succ : ℕ) = ps.length - 1 - i := by
        simp only [List.length_cons, Fin.val_succ]
        omega
      have hlt : ps.length - 1 - i < ps.length := by omega
      rw [hplace, ← digit_mod hlt, Nat.mul_comm, Nat.mul_add_mod, Nat.mod_eq_of_lt hlow, ih i]
      rfl

end Spelling

namespace StateVector

variable {d n : ℕ}

/-! ## What is summed over -/

/-- What is summed over for the amplitude at an index: the row is the number that its digits at the
targets spell, the first one most significant, and the source of a column is the index with the
digits of the column at the targets and the digits that were there elsewhere. -/
structure Summed (d n : ℕ) (targets : List ℕ) (x : ℕ) (row : Fin (d ^ targets.length))
    (source : Fin (d ^ targets.length) → ℕ) : Prop where
  /-- The row spells the target digits. -/
  row_eq : (row : ℕ) =
    ∑ i : Fin targets.length, digit d targets[i] x * d ^ (targets.length - 1 - i)
  /-- A source is an index of the register. -/
  source_lt : ∀ b, source b < d ^ n
  /-- A source has the digits of the column at the targets. -/
  digit_target : ∀ (b : Fin (d ^ targets.length)) (i : Fin targets.length),
    digit d targets[i] (source b) = digit d (targets.length - 1 - i) b
  /-- A source has the other digits of the index. -/
  digit_other : ∀ b, ∀ q, q ∉ targets → digit d q (source b) = digit d q x

/-- The number that the targets spell, as a row. -/
def spelledRow (hd : 0 < d) (targets : List ℕ) (x : ℕ) : Fin (d ^ targets.length) :=
  ⟨readDigits d targets x, readDigits_lt hd targets x⟩

/-- There is just one row and one source for each column. -/
theorem summed_iff (hd : 2 ≤ d) {targets : List ℕ} (hnodup : targets.Nodup)
    (hrange : ∀ q ∈ targets, q < n) {x : ℕ} (hx : x < d ^ n) {row : Fin (d ^ targets.length)}
    {source : Fin (d ^ targets.length) → ℕ} :
    Summed d n targets x row source ↔ row = spelledRow (by omega) targets x ∧
      source = fun b : Fin (d ^ targets.length) => placeDigits d targets b x := by
  have hpos : 0 < d := by omega
  have htarget (b : Fin (d ^ targets.length)) (i : Fin targets.length) :
      digit d targets[i] (placeDigits d targets b x) = digit d (targets.length - 1 - i) b := by
    rw [← digit_readDigits hpos, readDigits_placeDigits hpos hnodup, Nat.mod_eq_of_lt b.isLt]
  constructor
  · intro h
    refine ⟨Fin.ext (h.row_eq.trans (readDigits_eq_sum targets x).symm), ?_⟩
    funext b
    -- two indices of the register with the same digits are the same
    refine eq_of_digits (h.source_lt b) (placeDigits_lt hpos hrange hx b) fun q _ => ?_
    by_cases hq : q ∈ targets
    · obtain ⟨i, hi, rfl⟩ := List.getElem_of_mem hq
      exact (h.digit_target b ⟨i, hi⟩).trans (htarget b ⟨i, hi⟩).symm
    · rw [h.digit_other b q hq, digit_placeDigits_of_not_mem hpos hq]
  · rintro ⟨rfl, rfl⟩
    exact ⟨readDigits_eq_sum targets x, fun b => placeDigits_lt hpos hrange hx b, htarget,
      fun b q hq => digit_placeDigits_of_not_mem hpos hq b x⟩

/-! ## Moved axes -/

section Axes

variable {R : Type} [Scalar R]

/-- The positions of a register in the order of axes in which some of them come first: the others
follow from the highest to the lowest one, which is the order that all axes had. -/
def axisOrder (n : ℕ) (front : List ℕ) : List ℕ :=
  front ++ ((List.range n).filter fun q => q ∉ front).reverse

/-- The amplitudes with their axes in an order of positions. -/
def moveAxes (d : ℕ) (order : List ℕ) (state : StateVector R) : StateVector R :=
  build state.size fun z => state.amplitude (placeDigits d order z 0)

/-- The amplitudes with their axes moved back from an order of positions. -/
def restoreAxes (d : ℕ) (order : List ℕ) (moved : StateVector R) : StateVector R :=
  build moved.size fun x => moved.amplitude (readDigits d order x)

section Orders

variable {front : List ℕ}

theorem axisOrder_perm (hnodup : front.Nodup) (hrange : ∀ q ∈ front, q < n) :
    (axisOrder n front).Perm (List.range n) := by
  have hrest : (((List.range n).filter fun q => q ∉ front).reverse).Nodup :=
    List.nodup_reverse.mpr (List.nodup_range.filter _)
  refine (List.perm_ext_iff_of_nodup ?_ List.nodup_range).mpr fun q => ?_
  · refine hnodup.append hrest fun q hq hmem => ?_
    rw [List.mem_reverse, List.mem_filter] at hmem
    exact of_decide_eq_true hmem.2 hq
  · rw [axisOrder, List.mem_append, List.mem_reverse, List.mem_filter, List.mem_range,
      decide_eq_true_iff]
    by_cases hq : q ∈ front
    · simp [hq, hrange q hq]
    · simp [hq]

/-- The index at which an amplitude stood is found again from where its axes were moved. -/
theorem placeDigits_readDigits_order (hd : 2 ≤ d) {order : List ℕ}
    (horder : order.Perm (List.range n)) {x : ℕ} (hx : x < d ^ n) :
    placeDigits d order (readDigits d order x) 0 = x := by
  have hpos : 0 < d := by omega
  have hnodup : order.Nodup := horder.nodup_iff.mpr List.nodup_range
  have hrange : ∀ q ∈ order, q < n := fun q hq => List.mem_range.mp (horder.mem_iff.mp hq)
  refine eq_of_digits (placeDigits_lt hpos hrange (Nat.pow_pos hpos) _) hx fun q hq => ?_
  refine digit_eq_of_readDigits hpos ?_ q (horder.mem_iff.mpr (List.mem_range.mpr hq))
  rw [readDigits_placeDigits hpos hnodup, Nat.mod_eq_of_lt (readDigits_lt hpos order x)]

/-- Where the axes of an index are moved to. -/
theorem readDigits_order_lt (hd : 0 < d) {order : List ℕ} (horder : order.Perm (List.range n))
    (x : ℕ) : readDigits d order x < d ^ n := by
  have h := readDigits_lt hd order x
  rwa [horder.length_eq, List.length_range] at h

/-- An amplitude stands where its axes were moved to. -/
theorem amplitude_moveAxes (hd : 2 ≤ d) {order : List ℕ} (horder : order.Perm (List.range n))
    {state : StateVector R} (hsize : state.size = d ^ n) {x : ℕ} (hx : x < d ^ n) :
    (moveAxes d order state).amplitude (readDigits d order x) = state.amplitude x := by
  have hlt : readDigits d order x < state.size :=
    hsize ▸ readDigits_order_lt (by omega) horder x
  rw [moveAxes, amplitude_build _ hlt, placeDigits_readDigits_order hd horder hx]

end Orders

/-! ## Parts of a moved index -/

section Parts

variable {before targets : List ℕ}

/-- The parts of a number that is put together of three. -/
theorem parts_of_split {block rest b c : ℕ} (hb : b < block) (hc : c < rest) (a : ℕ) :
    ((a * block + b) * rest + c) / rest / block = a ∧
      ((a * block + b) * rest + c) / rest % block = b ∧
      ((a * block + b) * rest + c) % rest = c := by
  have hblock : 0 < block := by omega
  have hrest : 0 < rest := by omega
  have hupper : ((a * block + b) * rest + c) / rest = a * block + b := by
    rw [Nat.mul_comm, Nat.mul_add_div hrest, Nat.div_eq_of_lt hc, Nat.add_zero]
  refine ⟨?_, ?_, ?_⟩
  · rw [hupper, Nat.mul_comm, Nat.mul_add_div hblock, Nat.div_eq_of_lt hb, Nat.add_zero]
  · rw [hupper, Nat.mul_comm, Nat.mul_add_mod, Nat.mod_eq_of_lt hb]
  · rw [Nat.mul_comm, Nat.mul_add_mod, Nat.mod_eq_of_lt hc]

/-- A moved index has a part for the axes before the targets, one for the targets and one for the other
axes. -/
theorem exists_readDigits_order (hnodup : (before ++ targets).Nodup)
    (hrange : ∀ q ∈ before ++ targets, q < n) :
    ∃ others : List ℕ, (∀ q ∈ others, q ∉ before ++ targets) ∧
      others.length = n - before.length - targets.length ∧
      ∀ x, readDigits d (axisOrder n (before ++ targets)) x =
        (readDigits d before x * d ^ targets.length + readDigits d targets x) *
          d ^ others.length + readDigits d others x := by
  refine ⟨((List.range n).filter fun q => q ∉ before ++ targets).reverse, ?_, ?_, fun x => ?_⟩
  · intro q hq
    rw [List.mem_reverse, List.mem_filter] at hq
    exact of_decide_eq_true hq.2
  · have hlength := (axisOrder_perm hnodup hrange).length_eq
    rw [axisOrder, List.length_append, List.length_append, List.length_range] at hlength
    omega
  · rw [axisOrder, readDigits_append, readDigits_append]

/-- A column of the moved amplitudes is the index with the digits of the column at the targets. -/
theorem amplitude_moveAxes_column (hd : 2 ≤ d) (hnodup : (before ++ targets).Nodup)
    (hrange : ∀ q ∈ before ++ targets, q < n) {others : List ℕ}
    (hothers : ∀ q ∈ others, q ∉ before ++ targets)
    (hsplit : ∀ x, readDigits d (axisOrder n (before ++ targets)) x =
      (readDigits d before x * d ^ targets.length + readDigits d targets x) * d ^ others.length +
        readDigits d others x)
    {state : StateVector R} (hsize : state.size = d ^ n) {x b : ℕ} (hx : x < d ^ n)
    (hb : b < d ^ targets.length) :
    (moveAxes d (axisOrder n (before ++ targets)) state).amplitude
        ((readDigits d before x * d ^ targets.length + b) * d ^ others.length +
          readDigits d others x) = state.amplitude (placeDigits d targets b x) := by
  have hpos : 0 < d := by omega
  have hsame : SameOff d targets (placeDigits d targets b x) x := .placeDigits hpos targets b x
  have hdisjoint := List.disjoint_of_nodup_append hnodup
  have htargets : targets.Nodup := hnodup.of_append_right
  have hcolumn := amplitude_moveAxes hd (axisOrder_perm hnodup hrange) hsize
    (placeDigits_lt hpos (fun q hq => hrange q (List.mem_append_right _ hq)) hx b)
  rwa [hsplit, hsame.readDigits_eq fun q hq => hdisjoint hq,
    hsame.readDigits_eq fun q hq hmem => hothers q hq (List.mem_append_right _ hmem),
    readDigits_placeDigits hpos htargets, Nat.mod_eq_of_lt hb] at hcolumn

end Parts

end Axes

/-! ## Positions of a register -/

theorem targetList_natCast {positions : List ℕ} (hne : positions ≠ []) (hnodup : positions.Nodup)
    (hrange : ∀ q ∈ positions, q < n) : TargetList n (positions.map fun q : ℕ => (q : Int)) where
  ne_nil := by simpa using hne
  nodup := List.Nodup.map Nat.cast_injective hnodup
  inRange := by
    intro i hi
    obtain ⟨q, hq, rfl⟩ := List.mem_map.mp hi
    exact ⟨Int.natCast_nonneg q, Int.ofNat_lt.mpr (hrange q hq)⟩

theorem map_int_natCast (positions : List ℕ) :
    (positions.map fun q : ℕ => (q : Int)).map Argument.int = positions.map .nat := List.map_map

theorem map_toNat_natCast (positions : List ℕ) :
    (positions.map fun q : ℕ => (q : Int)).map Int.toNat = positions := by
  rw [List.map_map]
  exact List.map_id' positions

end StateVector

end QuditSim
