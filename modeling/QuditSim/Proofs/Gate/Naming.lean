import Mathlib.Data.List.Zip
import Mathlib.Tactic.Common
import QuditSim.Gate.Library

/-!
# Names of equal operators

Operators count as equal when their entries are equal as doubles, and doubles are equal that are
not the same: there are two zeros. A library does not tell such operators apart. It compares
entries, and the distances between them, with the entries of its own, and no zero that comes up on
the way shows its sign in the end.

- `Zeros.Alike` is what is known of two doubles that are equal, and of all that is computed of them.
- `GateLibrary.nameOf_eq_of_same`: equal operators have one name.
- `Operator.same_self_of_same`: an operator that is equal to any is equal to itself.
-/

namespace QuditSim

open Float.Model Float.Model.UnpackedFloat

/-! ## Doubles up to the sign of zero -/

namespace Zeros

/-- One of the two zeros. -/
def IsZero (x : Float) : Prop := ∃ sign, x.toModel.unpack = .zero sign

/-- Doubles are the same, or both of them are zeros. -/
def Alike (x y : Float) : Prop := x = y ∨ IsZero x ∧ IsZero y

/-- What is read off the bits of two doubles is the same, or both are zeros. -/
def AlikeUnpacked (a b : UnpackedFloat) : Prop :=
  a = b ∨ (∃ sign, a = .zero sign) ∧ ∃ sign, b = .zero sign

theorem alikeUnpacked_of_compare {a b : UnpackedFloat} (h : a.compare b = some .eq) :
    AlikeUnpacked a b := by
  cases a with
  | notANumber => cases h
  | infinity sign =>
    cases b with
    | infinity sign' => cases sign <;> cases sign' <;> first | exact .inl rfl | cases h
    | notANumber => cases h
    | zero sign' => cases sign <;> cases h
    | finite sign' _ _ _ => cases sign <;> cases h
  | zero sign =>
    cases b with
    | zero sign' => exact .inr ⟨⟨_, rfl⟩, _, rfl⟩
    | notANumber => cases h
    | infinity sign' => cases sign' <;> cases h
    | finite sign' _ _ _ => cases sign' <;> cases h
  | finite sign m e hm =>
    cases b with
    | finite sign' m' e' hm' =>
      -- the exponents are compared first, and the mantissas after them
      have hparts : (compare e e').then (compare m m') = .eq → e = e' ∧ m = m' := by
        intro hthen
        rw [Ordering.then_eq_eq] at hthen
        exact ⟨Int.compare_eq_eq.mp hthen.1, Nat.compare_eq_eq.mp hthen.2⟩
      cases sign <;> cases sign'
      · have hswap : ((compare e e').then (compare m m')).swap = .eq := Option.some.inj h
        obtain ⟨rfl, rfl⟩ := hparts (by simpa using hswap)
        exact .inl rfl
      · cases h
      · cases h
      · obtain ⟨rfl, rfl⟩ := hparts (Option.some.inj h)
        exact .inl rfl
    | notANumber => cases h
    | infinity sign' => cases sign' <;> cases h
    | zero sign' => cases sign <;> cases h

theorem compare_eq_of_alike (x : UnpackedFloat) {a b : UnpackedFloat} (h : AlikeUnpacked a b) :
    x.compare a = x.compare b := by
  rcases h with rfl | ⟨⟨sign, rfl⟩, sign', rfl⟩
  · rfl
  · cases x with
    | infinity sign'' => cases sign'' <;> rfl
    | finite sign'' _ _ _ => cases sign'' <;> rfl
    | _ => rfl

theorem alikeUnpacked_of_beq {x y : Float} (h : (x == y) = true) :
    AlikeUnpacked x.toModel.unpack y.toModel.unpack := by
  have hcompare : (x.toModel.unpack.compare y.toModel.unpack == some .eq) = true := h
  exact alikeUnpacked_of_compare (eq_of_beq hcompare)

/-- A double is equal to one of two equal doubles just if it is equal to the other one. -/
theorem beq_eq_of_beq (z : Float) {x y : Float} (h : (x == y) = true) : (z == x) = (z == y) := by
  show (z.toModel.unpack.compare _ == some Ordering.eq) = (_ == some Ordering.eq)
  rw [compare_eq_of_alike _ (alikeUnpacked_of_beq h)]

/-- Being equal goes both ways. -/
theorem beq_symm {x y : Float} (h : (x == y) = true) : (y == x) = true := by
  rcases alikeUnpacked_of_beq h with heq | ⟨⟨sign, hx⟩, sign', hy⟩
  · have hself : (x.toModel.unpack.compare y.toModel.unpack == some .eq) = true := h
    show (y.toModel.unpack.compare x.toModel.unpack == some .eq) = true
    rw [heq] at hself ⊢
    exact hself
  · show (y.toModel.unpack.compare x.toModel.unpack == some .eq) = true
    rw [hx, hy]
    rfl

theorem isZero_pack (sign : Sign) : IsZero (.ofModel (.pack (.zero sign))) := by
  cases sign
  · exact ⟨.negative, rfl⟩
  · exact ⟨.positive, rfl⟩

/-- The distances of equal doubles from a third one are alike. -/
theorem alike_sub (z : Float) {x y : Float} (h : (x == y) = true) : Alike (z - x) (z - y) := by
  show Alike (.ofModel (.pack (sub Format.binary64 z.toModel.unpack _)))
    (.ofModel (.pack (sub Format.binary64 z.toModel.unpack _)))
  rcases alikeUnpacked_of_beq h with heq | ⟨⟨sign, hx⟩, sign', hy⟩
  · rw [heq]
    exact .inl rfl
  · rw [hx, hy]
    cases z.toModel.unpack with
    -- a zero less a zero is a zero of some sign, and any other double less a zero is that double
    | zero sign'' =>
      have hzero : ∀ s t, ∃ u, sub Format.binary64 (.zero s) (.zero t) = .zero u := by
        intro s t
        cases s <;> cases t <;> exact ⟨_, rfl⟩
      obtain ⟨u, hu⟩ := hzero sign'' sign
      obtain ⟨v, hv⟩ := hzero sign'' sign'
      rw [hu, hv]
      exact .inr ⟨isZero_pack u, isZero_pack v⟩
    | _ => exact .inl rfl

section Hypot

variable {x y : Float}

theorem IsZero.isInf (h : IsZero x) : x.isInf = false := by
  obtain ⟨sign, h⟩ := h
  show x.toModel.unpack.isInf = false
  rw [h]
  rfl

theorem IsZero.isNaN (h : IsZero x) : x.isNaN = false := by
  obtain ⟨sign, h⟩ := h
  show x.toModel.unpack.isNaN = false
  rw [h]
  rfl

theorem IsZero.beq_zero (h : IsZero x) : (x == 0.0) = true := by
  obtain ⟨sign, h⟩ := h
  show (x.toModel.unpack.compare (.zero .positive) == some .eq) = true
  rw [h]
  rfl

theorem IsZero.abs (h : IsZero x) : x.abs = .ofModel (.pack (.zero .positive)) := by
  obtain ⟨sign, h⟩ := h
  show Float.ofModel (.pack x.toModel.unpack.abs) = _
  rw [h]
  rfl

theorem isZero_of_beq_zero (h : (x == 0.0) = true) : IsZero x := by
  rcases alikeUnpacked_of_beq h with hx | ⟨hx, -⟩
  · exact ⟨.positive, hx⟩
  · exact hx

/-- Over a leg of length zero there is the length of the other leg. -/
theorem hypot_left (h : IsZero x) :
    Scalar.hypot x y = if y.isInf then 1.0 / 0.0 else if y.isNaN then 0.0 / 0.0 else y.abs := by
  simp only [Scalar.hypot, h.isInf, h.isNaN, h.beq_zero, Bool.false_or, if_true]

theorem hypot_right (h : IsZero y) :
    Scalar.hypot x y = if x.isInf then 1.0 / 0.0 else if x.isNaN then 0.0 / 0.0 else x.abs := by
  simp only [Scalar.hypot, h.isInf, h.isNaN, h.beq_zero, Bool.or_false, if_true]
  by_cases hx : (x == 0.0) = true
  · rw [if_pos hx, h.abs, (isZero_of_beq_zero hx).abs]
  · rw [if_neg hx]

/-- The signs of zeros do not show in a length. -/
theorem hypot_eq_of_alike {x' y' : Float} (hx : Alike x x') (hy : Alike y y') :
    Scalar.hypot x y = Scalar.hypot x' y' := by
  have hright : Scalar.hypot x y = Scalar.hypot x y' := by
    rcases hy with rfl | ⟨hy, hy'⟩
    · rfl
    · rw [hypot_right hy, hypot_right hy']
  rw [hright]
  rcases hx with rfl | ⟨hx, hx'⟩
  · rfl
  · rw [hypot_left hx, hypot_left hx']

end Hypot

end Zeros

/-! ## Operators -/

namespace Amplitude

variable {v w : Amplitude Float}

theorem beq_parts (h : (v == w) = true) : (v.re == w.re) = true ∧ (v.im == w.im) = true :=
  Bool.and_eq_true_iff.mp h

/-- Equal amplitudes are equal to the same amplitudes. -/
theorem beq_eq_of_beq (z : Amplitude Float) (h : (v == w) = true) : (z == v) = (z == w) := by
  obtain ⟨hre, him⟩ := beq_parts h
  show (z.re == v.re && z.im == v.im) = (z.re == w.re && z.im == w.im)
  rw [Zeros.beq_eq_of_beq z.re hre, Zeros.beq_eq_of_beq z.im him]

theorem beq_symm (h : (v == w) = true) : (w == v) = true := by
  obtain ⟨hre, him⟩ := beq_parts h
  exact Bool.and_eq_true_iff.mpr ⟨Zeros.beq_symm hre, Zeros.beq_symm him⟩

/-- Equal amplitudes have the same distances. -/
theorem modulus_sub_eq_of_beq (z : Amplitude Float) (h : (v == w) = true) :
    (z - v).modulus = (z - w).modulus := by
  obtain ⟨hre, him⟩ := beq_parts h
  exact Zeros.hypot_eq_of_alike (Zeros.alike_sub z.re hre) (Zeros.alike_sub z.im him)

end Amplitude

/-- A test of pairs that does not tell equal second items apart has one answer for lists of equal
items. -/
theorem all_zip_eq_of_beq {K L : Type} [BEq L] {test : K × L → Bool}
    (htest : ∀ k x y, (x == y) = true → test (k, x) = test (k, y)) (ks : List K) {xs ys : List L}
    (hlength : xs.length = ys.length) (h : ((xs.zip ys).all fun (x, y) => x == y) = true) :
    (ks.zip xs).all test = (ks.zip ys).all test := by
  induction ks generalizing xs ys with
  | nil => rfl
  | cons k ks ih =>
    cases xs with
    | nil =>
      rw [List.eq_nil_of_length_eq_zero hlength.symm]
    | cons x xs =>
      cases ys with
      | nil => cases hlength
      | cons y ys =>
        simp only [List.zip_cons_cons, List.all_cons, Bool.and_eq_true] at h ⊢
        rw [htest k x y h.1, ih (Nat.succ.inj hlength) h.2]

namespace Operator

variable {a b : Operator Float}

theorem same_parts (h : a.same b = true) :
    a.shape = b.shape ∧ a.entries.toList.length = b.entries.toList.length ∧
      ((a.entries.toList.zip b.entries.toList).all fun (x, y) => x == y) = true := by
  simp only [Tensor.same, Bool.and_eq_true, beq_iff_eq] at h
  refine ⟨h.1, ?_, h.2⟩
  rw [Array.length_toList, Array.length_toList, a.size_entries, b.size_entries, h.1]

/-- An operator that is equal to any is equal to itself. -/
theorem same_self_of_same (h : a.same b = true) : a.same a = true := by
  obtain ⟨-, hlength, hentries⟩ := same_parts h
  simp only [Tensor.same, Bool.and_eq_true, beq_self_eq_true, true_and]
  rw [all_zip_eq_of_beq (fun k _ _ hxy => Amplitude.beq_eq_of_beq k hxy) _ hlength hentries]
  exact hentries

/-- Being equal goes both ways. -/
theorem same_symm (h : a.same b = true) : b.same a = true := by
  obtain ⟨hshape, -, hentries⟩ := same_parts h
  simp only [Tensor.same, Bool.and_eq_true, beq_iff_eq]
  refine ⟨hshape.symm, ?_⟩
  rw [← List.zip_swap, List.all_map]
  rw [List.all_eq_true] at hentries ⊢
  exact fun pair hpair => Amplitude.beq_symm (hentries pair hpair)

/-- Operators that are equal to one operator are equal to each other. -/
theorem same_of_same {known : Operator Float} (ha : known.same a = true)
    (hb : known.same b = true) : a.same b = true := by
  obtain ⟨hshape, -, hentries⟩ := same_parts (same_symm ha)
  obtain ⟨hshape', hlength, hentries'⟩ := same_parts hb
  simp only [Tensor.same, Bool.and_eq_true, beq_iff_eq]
  refine ⟨hshape.trans hshape', ?_⟩
  rw [← all_zip_eq_of_beq (fun k _ _ hxy => Amplitude.beq_eq_of_beq k hxy) _ hlength hentries']
  exact hentries

end Operator

namespace GateLibrary

variable {N : Type} {a b : Operator Float}

theorem agrees_eq_of_same (tolerance : Float) (known : Operator Float) (h : a.same b = true) :
    agrees tolerance known a = agrees tolerance known b := by
  obtain ⟨hshape, hlength, hentries⟩ := Operator.same_parts h
  unfold agrees Tensor.near
  rw [hshape, all_zip_eq_of_beq _ _ hlength hentries]
  intro z v w hvw
  simp only [Amplitude.beq_eq_of_beq z hvw, Amplitude.modulus_sub_eq_of_beq z hvw]

/-- Equal operators have one name. -/
theorem nameOf_eq_of_same [Label N] (library : GateLibrary N Float) (h : a.same b = true) :
    library.nameOf a = library.nameOf b := by
  unfold nameOf
  simp only [agrees_eq_of_same library.tolerance _ h]

end GateLibrary

end QuditSim
