import Mathlib.Tactic.Common
import QuditSim.Noise.Channel

/-!
# Doubles that are not numbers

A double that is not a number spoils every sum and every product that it goes into, and it compares
with nothing. Of two other doubles, the first is below the second, or the second is at most the
first.

- `NotANumber.le_iff_not_lt`: where the two ways of asking for the order say the same.
- `Amplitude.Spoiled` is an amplitude of which no part is a number. `Amplitude.spoiled_mul`: it takes
  one part of one factor to spoil a product.
- `Tensor.spoiled_inner` carries this over to the sums that the entries of products are.
-/

namespace QuditSim

open Float.Model Float.Model.UnpackedFloat

namespace NotANumber

variable {x y : Float}

theorem isNaN_iff : x.isNaN = true ↔ x.toModel.unpack = .notANumber := by
  show x.toModel.unpack.isNaN = true ↔ _
  cases x.toModel.unpack with
  | notANumber => exact ⟨fun _ => rfl, fun _ => rfl⟩
  | infinity sign => exact ⟨fun h => Bool.noConfusion h, nofun⟩
  | zero sign => exact ⟨fun h => Bool.noConfusion h, nofun⟩
  | finite sign m e hm => exact ⟨fun h => Bool.noConfusion h, nofun⟩

theorem isNaN_pack : (Float.ofModel (.pack .notANumber)).isNaN = true := rfl

/-! ## Comparisons -/

theorem lt_iff : x < y ↔ x.toModel.unpack.compare y.toModel.unpack = some .lt := by
  show decide ((x.toModel.unpack.compare y.toModel.unpack == some .lt) = true) = true ↔ _
  rw [decide_eq_true_iff, beq_iff_eq]

theorem le_iff : x ≤ y ↔ ∃ o, x.toModel.unpack.compare y.toModel.unpack = some o ∧ o.isLE = true := by
  show decide ((x.toModel.unpack.compare y.toModel.unpack).any Ordering.isLE = true) = true ↔ _
  rw [decide_eq_true_iff, Option.any_eq_true]

/-- The order the other way round. -/
theorem compare_swap (a b : UnpackedFloat) : b.compare a = (a.compare b).map Ordering.swap := by
  have hparts : ∀ (e e' : Int) (m m' : Nat), (compare e' e).then (compare m' m) =
      ((compare e e').then (compare m m')).swap := by
    intro e e' m m'
    rw [Ordering.swap_then, Int.compare_swap, Nat.compare_swap]
  cases a with
  | notANumber => cases b <;> rfl
  | infinity sign =>
    cases b with
    | notANumber => cases sign <;> rfl
    | infinity sign' => cases sign <;> cases sign' <;> rfl
    | zero sign' => cases sign <;> rfl
    | finite sign' _ _ _ => cases sign <;> cases sign' <;> rfl
  | zero sign =>
    cases b with
    | notANumber => rfl
    | infinity sign' => cases sign' <;> rfl
    | zero sign' => rfl
    | finite sign' _ _ _ => cases sign' <;> rfl
  | finite sign m e hm =>
    cases b with
    | notANumber => cases sign <;> rfl
    | infinity sign' => cases sign <;> cases sign' <;> rfl
    | zero sign' => cases sign <;> rfl
    | finite sign' m' e' hm' =>
      cases sign <;> cases sign'
      · exact congrArg (fun o : Ordering => some o.swap) (hparts e e' m m')
      · rfl
      · rfl
      · exact congrArg some (hparts e e' m m')

/-- Numbers are compared. -/
theorem compare_isSome {a b : UnpackedFloat} (ha : a ≠ .notANumber) (hb : b ≠ .notANumber) :
    (a.compare b).isSome := by
  cases a with
  | notANumber => exact absurd rfl ha
  | infinity sign =>
    cases b with
    | notANumber => exact absurd rfl hb
    | _ => cases sign <;> rfl
  | zero sign =>
    cases b with
    | notANumber => exact absurd rfl hb
    | zero sign' => rfl
    | infinity sign' => cases sign' <;> rfl
    | finite sign' _ _ _ => cases sign' <;> rfl
  | finite sign m e hm =>
    cases b with
    | notANumber => exact absurd rfl hb
    | zero sign' => cases sign <;> rfl
    | infinity sign' => cases sign <;> cases sign' <;> rfl
    | finite sign' _ _ _ => cases sign <;> cases sign' <;> rfl

/-- Of two numbers, the first is at most the second, or the second is below the first. -/
theorem le_iff_not_lt (hx : x.isNaN = false) (hy : y.isNaN = false) : x ≤ y ↔ ¬ y < x := by
  have hx : x.toModel.unpack ≠ .notANumber := fun h =>
    Bool.false_ne_true (hx.symm.trans (isNaN_iff.mpr h))
  have hy : y.toModel.unpack ≠ .notANumber := fun h =>
    Bool.false_ne_true (hy.symm.trans (isNaN_iff.mpr h))
  obtain ⟨o, ho⟩ := Option.isSome_iff_exists.mp (compare_isSome hx hy)
  rw [le_iff, lt_iff, compare_swap x.toModel.unpack, ho]
  cases o <;> simp [Ordering.swap]

/-- What is not a number is at most nothing. -/
theorem not_le_of_isNaN (hx : x.isNaN = true) : ¬ x ≤ y := by
  rw [le_iff, isNaN_iff.mp hx]
  rintro ⟨o, ho, -⟩
  cases ho

/-- Nothing is at most what is not a number. -/
theorem not_le_of_isNaN_right (hy : y.isNaN = true) : ¬ x ≤ y := by
  rw [le_iff, compare_swap y.toModel.unpack, isNaN_iff.mp hy]
  rintro ⟨o, ho, -⟩
  cases ho

/-- What is not a number is below nothing. -/
theorem not_lt_of_isNaN (hx : x.isNaN = true) : ¬ x < y := by
  rw [lt_iff, isNaN_iff.mp hx]
  exact nofun

/-- Nothing is below what is not a number. -/
theorem not_lt_of_isNaN_right (hy : y.isNaN = true) : ¬ x < y := by
  rw [lt_iff, compare_swap y.toModel.unpack, isNaN_iff.mp hy]
  exact nofun

/-- A double is equal to itself just if it is a number. -/
theorem beq_self_iff : (x == x) = true ↔ x.isNaN = false := by
  show (x.toModel.unpack.compare x.toModel.unpack == some .eq) = true ↔
    x.toModel.unpack.isNaN = false
  cases x.toModel.unpack with
  | notANumber => exact ⟨fun h => Bool.noConfusion h, fun h => Bool.noConfusion h⟩
  | infinity sign => cases sign <;> exact ⟨fun _ => rfl, fun _ => rfl⟩
  | zero sign => exact ⟨fun _ => rfl, fun _ => rfl⟩
  | finite sign m e hm =>
    have hparts : (compare e e).then (compare m m) = .eq :=
      Ordering.then_eq_eq.mpr ⟨Int.compare_eq_eq.mpr rfl, Nat.compare_eq_eq.mpr rfl⟩
    refine ⟨fun _ => rfl, fun _ => ?_⟩
    rw [beq_iff_eq]
    cases sign
    · exact congrArg (fun o : Ordering => some o.swap) hparts
    · exact congrArg some hparts

/-! ## Arithmetic -/

/-- An operation that a value spoils which is not a number, on either side. -/
theorem isNaN_operation (operation : UnpackedFloat → UnpackedFloat → UnpackedFloat)
    (hleft : ∀ b, operation .notANumber b = .notANumber)
    (hright : ∀ a, operation a .notANumber = .notANumber) (h : x.isNaN = true ∨ y.isNaN = true) :
    (Float.ofModel (.pack (operation x.toModel.unpack y.toModel.unpack))).isNaN = true := by
  rcases h with h | h
  · rw [isNaN_iff.mp h, hleft]
    exact isNaN_pack
  · rw [isNaN_iff.mp h, hright]
    exact isNaN_pack

theorem isNaN_add (h : x.isNaN = true ∨ y.isNaN = true) : (x + y).isNaN = true :=
  isNaN_operation (add Format.binary64) (fun _ => rfl) (fun a => by cases a <;> rfl) h

theorem isNaN_sub (h : x.isNaN = true ∨ y.isNaN = true) : (x - y).isNaN = true :=
  isNaN_operation (sub Format.binary64) (fun _ => rfl) (fun a => by cases a <;> rfl) h

theorem isNaN_mul (h : x.isNaN = true ∨ y.isNaN = true) : (x * y).isNaN = true :=
  isNaN_operation (mul Format.binary64) (fun _ => rfl) (fun a => by cases a <;> rfl) h

theorem isNaN_sqrt (h : x.isNaN = true) : (Scalar.sqrt x).isNaN = true := by
  show (Float.ofModel (.pack (sqrt Format.binary64 x.toModel.unpack))).isNaN = true
  rw [isNaN_iff.mp h]
  exact isNaN_pack

theorem isInf_eq_false (h : x.isNaN = true) : x.isInf = false := by
  show x.toModel.unpack.isInf = false
  rw [isNaN_iff.mp h]
  rfl

/-- Of two legs that are not numbers, the hypotenuse is not one either. -/
theorem isNaN_hypot (hx : x.isNaN = true) (hy : y.isNaN = true) :
    (Scalar.hypot x y).isNaN = true := by
  simp only [Scalar.hypot, isInf_eq_false hx, isInf_eq_false hy, hx, Bool.or_self,
    Bool.false_eq_true, if_false, Bool.true_or, if_true]
  rfl

/-- The larger of two scalars is not a number if one of them is not. -/
theorem isNaN_largest (h : x.isNaN = true ∨ y.isNaN = true) :
    (Scalar.largest x y).isNaN = true := by
  have hlt : ¬ x < y := h.elim not_lt_of_isNaN not_lt_of_isNaN_right
  have hle : ¬ y ≤ x := h.elim not_le_of_isNaN_right not_le_of_isNaN
  unfold Scalar.largest
  rw [if_neg hlt, if_neg hle]
  exact isNaN_add h

/-- The largest of some scalars is not a number if one of them is not. -/
theorem isNaN_foldl_largest {xs : List Float} (h : x.isNaN = true ∨ ∃ z ∈ xs, z.isNaN = true) :
    (xs.foldl Scalar.largest x).isNaN = true := by
  induction xs generalizing x with
  | nil =>
    rcases h with h | ⟨z, hz, -⟩
    · exact h
    · cases hz
  | cons z xs ih =>
    rw [List.foldl_cons]
    refine ih ?_
    rcases h with h | ⟨w, hw, hnan⟩
    · exact .inl (isNaN_largest (.inl h))
    · rcases List.mem_cons.mp hw with rfl | hw
      · exact .inl (isNaN_largest (.inr hnan))
      · exact .inr ⟨w, hw, hnan⟩

end NotANumber

namespace Amplitude

variable {z w : Amplitude Float}

/-- A part of an amplitude is not a number. -/
def Broken (z : Amplitude Float) : Prop := z.re.isNaN = true ∨ z.im.isNaN = true

/-- No part of an amplitude is a number. -/
def Spoiled (z : Amplitude Float) : Prop := z.re.isNaN = true ∧ z.im.isNaN = true

theorem Spoiled.broken (h : z.Spoiled) : z.Broken := .inl h.1

/-- An amplitude is equal to itself just if both of its parts are numbers. -/
theorem beq_self_iff : (z == z) = true ↔ ¬ z.Broken := by
  show (z.re == z.re && z.im == z.im) = true ↔ ¬ (z.re.isNaN = true ∨ z.im.isNaN = true)
  rw [Bool.and_eq_true, NotANumber.beq_self_iff, NotANumber.beq_self_iff, not_or,
    Bool.not_eq_true, Bool.not_eq_true]

/-- One part of one factor spoils both parts of a product. -/
theorem spoiled_mul (h : z.Broken ∨ w.Broken) : (z * w).Spoiled := by
  rcases h with (h | h) | (h | h)
  · exact ⟨NotANumber.isNaN_sub (.inl (NotANumber.isNaN_mul (.inl h))),
      NotANumber.isNaN_add (.inl (NotANumber.isNaN_mul (.inl h)))⟩
  · exact ⟨NotANumber.isNaN_sub (.inr (NotANumber.isNaN_mul (.inl h))),
      NotANumber.isNaN_add (.inr (NotANumber.isNaN_mul (.inl h)))⟩
  · exact ⟨NotANumber.isNaN_sub (.inl (NotANumber.isNaN_mul (.inr h))),
      NotANumber.isNaN_add (.inr (NotANumber.isNaN_mul (.inr h)))⟩
  · exact ⟨NotANumber.isNaN_sub (.inr (NotANumber.isNaN_mul (.inr h))),
      NotANumber.isNaN_add (.inl (NotANumber.isNaN_mul (.inr h)))⟩

theorem spoiled_add (h : z.Spoiled ∨ w.Spoiled) : (z + w).Spoiled :=
  ⟨NotANumber.isNaN_add (h.imp And.left And.left), NotANumber.isNaN_add (h.imp And.right And.right)⟩

theorem Spoiled.sub (h : z.Spoiled) : (z - w).Spoiled :=
  ⟨NotANumber.isNaN_sub (.inl h.1), NotANumber.isNaN_sub (.inl h.2)⟩

theorem Spoiled.isNaN_modulus (h : z.Spoiled) : z.modulus.isNaN = true :=
  NotANumber.isNaN_hypot h.1 h.2

/-- One spoiled term spoils a sum. -/
theorem spoiled_sumTo {f : Nat → Amplitude Float} {n i : Nat} (hi : i < n) (h : (f i).Spoiled) :
    (sumTo f n).Spoiled := by
  induction n with
  | zero => exact absurd hi (Nat.not_lt_zero i)
  | succ n ih =>
    rw [sumTo_succ]
    rcases Nat.lt_succ_iff_lt_or_eq.mp hi with hi | rfl
    · exact spoiled_add (.inl (ih hi))
    · exact spoiled_add (.inr h)

end Amplitude

/-- One broken factor spoils a sum of products. -/
theorem Tensor.spoiled_inner {f g : Nat → Amplitude Float} {n i : Nat} (hi : i < n)
    (h : (f i).Broken ∨ (g i).Broken) : (Tensor.inner f g n).Spoiled := by
  have hsum : (sumTo (fun i => f i * g i) n).Spoiled :=
    Amplitude.spoiled_sumTo (f := fun i => f i * g i) hi (Amplitude.spoiled_mul h)
  have hproduct : ((1 : Amplitude Float) * sumTo (fun i => f i * g i) n).Spoiled :=
    Amplitude.spoiled_mul (.inr hsum.broken)
  unfold Tensor.inner
  exact hproduct

end QuditSim
