import QuditSim.Proofs.State.Axes
import QuditSim.State.Typed

/-!
# Operators side by side

Several operators that act on one position side by side take the digit there out of the index, while
an operator on a list of positions replaces the digits in their places. The two are the same for one
position: each operator makes the vector that it makes by itself, and what is refused is refused by
both.

- `StateFault.IsValue`: a fault of a value.
- `StateVector.branchOn_eq_applyOn`: the two ways to act on one position.
- `StateVector.refused_or_fits`: what is refused of a state and a position, whichever operators act
  there.
- `StateVector.branches_agree`: the operation on one position against the one on lists of positions.
-/

namespace QuditSim

open Fallible

/-- A value is refused: it is of a kind that fits, of which others are accepted. The other faults
are those of kinds and of the machine. -/
def StateFault.IsValue : StateFault → Prop
  | wrongKind | unindexable | tooLarge | endless | negativeExtent | manyIndices | overflow | noProduct
  | badTolerance _ => False
  | _ => True

/-- A tensor that holds no state is refused for its value. -/
theorem TypedTensor.isValue_of_state? {t : TypedTensor} {fault : StateFault}
    (h : t.state? = .error fault) : fault.IsValue := by
  unfold state? at h
  split at h
  · cases h
    trivial
  · cases t <;> cases h <;> trivial

namespace StateVector

variable {R : Type} [Scalar R] {d : ℕ}

/-- An operator that acts on one position acts on the list of it. -/
theorem branchOn_eq_applyOn (hd : 0 < d) (op : Operator R) (p : ℕ) (state : StateVector R) :
    branchOn d op p state = applyOn d op [p] state := by
  unfold branchOn applyOn
  congr 1
  funext x
  -- the row is the digit, and the amplitudes are those with another digit in its place
  have hrow : readDigits d [p] x = digit d p x := by simp
  have hplace {b : ℕ} (hb : b < d) :
      placeDigits d [p] b x = insertDigit d p b (removeDigit d p x) := by
    rw [placeDigits_cons, placeDigits_nil, List.length_nil, Nat.pow_zero, Nat.div_one,
      Nat.mod_eq_of_lt hb, replaceDigit_eq_insertDigit hd]
  rw [hrow, List.length_singleton, Nat.pow_one]
  exact Tensor.inner_congr (fun _ _ => rfl) fun b hb => by rw [hplace hb]

/-- A position outside of the register is refused. -/
theorem checkPosition_int_eq_error (role : String) {n : ℕ} {position : ℤ}
    (h : ¬ InRange n position) :
    checkPosition role n (.int position) = .error (.positionRange role (.int position) n) := by
  have hoff : (decide (position < 0) || decide ((n : ℤ) ≤ position)) = true := by
    unfold InRange at h
    rw [Bool.or_eq_true, decide_eq_true_eq, decide_eq_true_eq]
    omega
  exact if_pos hoff

/-- What is refused of a state and a position is refused by both operations alike, whichever
operators are to act there. -/
theorem refused_or_fits (hd : 2 ≤ d) (state : StateVector R) (position : ℤ) :
    (∃ fault : StateFault, fault.IsValue ∧
      (∀ ops : List (Operator R), state.branches ops (.int position) (.nat d) = .error fault) ∧
      ∀ op : Operator R, state.apply false op [.int position] (.nat d) = .error fault) ∨
    ∃ n p : ℕ, state.size = d ^ n ∧ p < n ∧ position = p := by
  rcases quditCount_cases hd state.size with ⟨n, hcount⟩ | hfault
  · by_cases hrange : InRange n position
    · obtain ⟨hnonneg, hlt⟩ := hrange
      exact .inr ⟨n, position.toNat, size_of_quditCount hcount, by omega, by omega⟩
    · have hposition := checkPosition_int_eq_error "target" hrange
      refine .inl ⟨.positionRange "target" (.int position) n, trivial, fun ops => ?_, fun op => ?_⟩
      · unfold branches
        rw [hcount]
        dsimp only [bind, Except.bind]
        rw [hposition]
      · have hpositions : checkPositions "target" [.int position] n =
            .error (.positionRange "target" (.int position) n) := by
          unfold checkPositions List.forM
          rw [hposition]
          rfl
        unfold apply
        rw [hcount]
        dsimp only [bind, Except.bind]
        rw [hpositions]
        rfl
  · refine .inl ⟨.notPower state.size (.nat d), trivial, fun ops => ?_, fun op => ?_⟩
    · unfold branches
      rw [hfault]
      rfl
    · unfold apply
      rw [hfault]
      rfl

theorem isSquareOf_iff {shape : List ℕ} : isSquareOf (.int d) shape ↔ shape = [d, d] := by
  match shape with
  | [rows, columns] =>
    rw [isSquareOf_int, Bool.and_eq_true, beq_iff_eq, beq_iff_eq, Int.natCast_inj, Int.natCast_inj]
    simp only [List.cons.injEq, and_true, eq_comm]
  | [] | [_] | _ :: _ :: _ :: _ => simp [isSquareOf]

section Fits

variable {state : StateVector R} {ops : List (Operator R)} {n p : ℕ} (hd : 2 ≤ d)
  (hsize : state.size = d ^ n) (hp : p < n)

include hd hsize hp

/-- An operator of the dimension acts on a position of the register without a fault. -/
theorem apply_singleton {op : Operator R} (hop : op.shape = [d, d]) :
    state.apply false op [.nat p] (.nat d) = .ok (branchOn d op p state) := by
  have htargets : TargetList n [(p : ℤ)] := by
    refine ⟨List.cons_ne_nil _ _, List.nodup_singleton _, ?_⟩
    rw [List.forall_mem_singleton]
    exact ⟨Int.natCast_nonneg p, Int.ofNat_lt.mpr hp⟩
  have hshape : op.shape = [d ^ [(p : ℤ)].length, d ^ [(p : ℤ)].length] := by
    rw [hop, List.length_singleton, Nat.pow_one]
  rw [branchOn_eq_applyOn (by omega)]
  exact apply_eq hd hsize htargets hshape

/-- An operator of another shape than the dimension says is refused, with all the others. -/
theorem branches_of_shape_ne (hops : ∃ op ∈ ops, op.shape ≠ [d, d]) :
    ∃ shape, state.branches ops (.nat p) (.nat d) = .error (.branchShape (.nat d) shape) := by
  rw [branches_eq_mapM hd hsize hp]
  -- the first one of another shape is refused when its turn comes
  induction ops with
  | nil =>
    obtain ⟨op, hop, -⟩ := hops
    cases hop
  | cons op ops ih =>
    rw [List.mapM_cons]
    by_cases hshape : op.shape = [d, d]
    · have hrest : ∃ op ∈ ops, op.shape ≠ [d, d] := by simpa [hshape] using hops
      obtain ⟨shape, herror⟩ := ih hrest
      rw [if_pos (isSquareOf_iff.mpr hshape), herror]
      exact ⟨shape, rfl⟩
    · rw [if_neg fun hsquare => hshape (isSquareOf_iff.mp hsquare)]
      exact ⟨op.shape, rfl⟩

/-- Operators of the dimension each make the vector that they make by themselves. -/
theorem forall₂_apply_branches (hops : ∀ op ∈ ops, op.shape = [d, d]) :
    ∃ vectors, state.branches ops (.nat p) (.nat d) = .ok vectors ∧
      List.Forall₂ (fun op vector => state.apply false op [.nat p] (.nat d) = .ok vector) ops
        vectors := by
  refine ⟨_, branches_eq hd hsize hp hops, ?_⟩
  rw [List.forall₂_map_right_iff, List.forall₂_same]
  exact fun op hop => apply_singleton hd hsize hp (hops op hop)

end Fits

/-- Operators are refused side by side just if the state or the position is refused of each operator
of the dimension that acts by itself, or one of them has another shape, and then as values. -/
theorem branches_refused_iff (hd : 2 ≤ d) (state : StateVector R) (ops : List (Operator R))
    (position : ℤ) :
    ((∃ fault, state.branches ops (.int position) (.nat d) = .error fault ∧ fault.IsValue) ↔
      (∀ op : Operator R, op.shape = [d, d] →
        ∃ fault, state.apply false op [.int position] (.nat d) = .error fault ∧ fault.IsValue) ∨
      ∃ op ∈ ops, op.shape ≠ [d, d]) ∧
    ∀ fault, state.branches ops (.int position) (.nat d) = .error fault → fault.IsValue := by
  rcases refused_or_fits hd state position with ⟨fault, hvalue, hbranches, happly⟩ | ⟨n, p, hsize, hp, rfl⟩
  -- the state or the position is refused of whatever operators
  · refine ⟨⟨fun _ => .inl fun op _ => ⟨fault, happly op, hvalue⟩,
      fun _ => ⟨fault, hbranches ops, hvalue⟩⟩, fun other hother => ?_⟩
    cases (hbranches ops).symm.trans hother
    exact hvalue
  by_cases hops : ∀ op ∈ ops, op.shape = [d, d]
  · obtain ⟨vectors, hvectors, -⟩ := forall₂_apply_branches hd hsize hp hops
    have haccepted : ∀ fault, state.branches ops (.int p) (.nat d) ≠ .error fault := by
      intro fault hfault
      cases hvectors.symm.trans hfault
    refine ⟨⟨fun ⟨fault, hfault, _⟩ => absurd hfault (haccepted fault), ?_⟩,
      fun fault hfault => absurd hfault (haccepted fault)⟩
    rintro (hrefused | ⟨op, hop, hshape⟩)
    -- the identity is not refused there
    · obtain ⟨fault, hfault, -⟩ := hrefused (.identity d) rfl
      cases (apply_singleton hd hsize hp rfl).symm.trans hfault
    · exact absurd (hops op hop) hshape
  · push Not at hops
    obtain ⟨shape, hfault⟩ := branches_of_shape_ne hd hsize hp hops
    refine ⟨⟨fun _ => .inr hops, fun _ => ⟨_, hfault, trivial⟩⟩, fun fault hother => ?_⟩
    cases hfault.symm.trans hother
    trivial

/-- On a register of a power of the dimension, operators of the dimension that act side by side on a
position each make the vector that they make by themselves, in their order. The operators are
refused as values just if the state or the position is refused of every operator of the dimension
that acts by itself, or one of them has another shape; there is no other way to fail. Before either
operation, a tensor that holds no state is refused as a value. -/
theorem branches_agree {R : Type} [Scalar R] {d : ℕ} (hd : 2 ≤ d) (state : StateVector R)
    (ops : List (Operator R)) (position : ℤ) :
    (∀ n : ℕ, state.size = d ^ n → 0 ≤ position → position < n → (∀ op ∈ ops, op.shape = [d, d]) →
      ∃ vectors, state.branches ops (.int position) (.nat d) = .ok vectors ∧
        List.Forall₂ (fun op vector => state.apply false op [.int position] (.nat d) = .ok vector) ops
          vectors) ∧
    ((∃ fault, state.branches ops (.int position) (.nat d) = .error fault ∧ fault.IsValue) ↔
      (∀ op : Operator R, op.shape = [d, d] →
        ∃ fault, state.apply false op [.int position] (.nat d) = .error fault ∧ fault.IsValue) ∨
      ∃ op ∈ ops, op.shape ≠ [d, d]) ∧
    (∀ fault, state.branches ops (.int position) (.nat d) = .error fault → fault.IsValue) ∧
    ∀ (t : TypedTensor) (fault : StateFault), t.state? = .error fault → fault.IsValue := by
  obtain ⟨hrefused, hvalue⟩ := branches_refused_iff hd state ops position
  refine ⟨fun n hsize hnonneg hlt hops => ?_, hrefused, hvalue, fun _ _ => TypedTensor.isValue_of_state?⟩
  obtain ⟨p, rfl⟩ := Int.eq_ofNat_of_zero_le hnonneg
  exact forall₂_apply_branches hd hsize (Int.ofNat_lt.mp hlt) hops

/-- Shift and clock side by side at the second of two qutrits, and with an operator of qubits. -/
theorem branches_agree_qutrits :
    let state : StateVector ℝ := basisState 9 4
    let ops : List (Operator ℝ) := [Gate.shift 3, Gate.clock 3]
    2 ≤ 3 ∧ state.size = 3 ^ 2 ∧ (∀ op ∈ ops, op.shape = [3, 3]) ∧
      (∃ vectors, state.branches ops (.int 1) (.nat 3) = .ok vectors ∧
        List.Forall₂ (fun op vector => state.apply false op [.int 1] (.nat 3) = .ok vector) ops
          vectors) ∧
      ∃ fault, state.branches (.identity 2 :: ops) (.int 1) (.nat 3) = .error fault ∧
        fault.IsValue := by
  intro state ops
  have hd : 2 ≤ 3 := by decide
  have hsize : state.size = 3 ^ 2 := size_build _ _
  have hops : ∀ op ∈ ops, op.shape = [3, 3] := by
    rw [List.forall_mem_cons, List.forall_mem_singleton]
    exact ⟨rfl, rfl⟩
  refine ⟨hd, hsize, hops, ?_, ?_⟩
  · exact (branches_agree hd state ops 1).1 2 hsize (by decide) (by decide) hops
  · have hshape : (.identity 2 : Operator ℝ).shape ≠ [3, 3] := by
      show [2, 2] ≠ [3, 3]
      decide
    exact (branches_agree hd state _ 1).2.1.mpr (.inr ⟨_, List.mem_cons_self, hshape⟩)

end StateVector

end QuditSim
