import QuditSim.Scalar

/-!
# Amplitudes

A complex number over a scalar type, kept as its two parts. The arithmetic is the plain one
on the parts, so over floating-point scalars a part that is not finite spreads as the
formulas say.
-/

namespace QuditSim

/-- A complex number with a real and an imaginary part. -/
structure Amplitude (R : Type) where
  /-- The real part. -/
  re : R
  /-- The imaginary part. -/
  im : R

namespace Amplitude

variable {R : Type}

@[ext] theorem ext {z w : Amplitude R} (hre : z.re = w.re) (him : z.im = w.im) : z = w := by
  cases z; cases w; simp_all

section Arithmetic

variable [Scalar R]

instance : Zero (Amplitude R) := ⟨⟨0, 0⟩⟩
instance : One (Amplitude R) := ⟨⟨1, 0⟩⟩
instance : Add (Amplitude R) := ⟨fun z w => ⟨z.re + w.re, z.im + w.im⟩⟩
instance : Sub (Amplitude R) := ⟨fun z w => ⟨z.re - w.re, z.im - w.im⟩⟩
instance : Neg (Amplitude R) := ⟨fun z => ⟨-z.re, -z.im⟩⟩
instance : Mul (Amplitude R) :=
  ⟨fun z w => ⟨z.re * w.re - z.im * w.im, z.re * w.im + z.im * w.re⟩⟩
instance : BEq (Amplitude R) := ⟨fun z w => z.re == w.re && z.im == w.im⟩
instance : Inhabited (Amplitude R) := ⟨0⟩

@[simp] theorem zero_re : (0 : Amplitude R).re = 0 := rfl
@[simp] theorem zero_im : (0 : Amplitude R).im = 0 := rfl
@[simp] theorem one_re : (1 : Amplitude R).re = 1 := rfl
@[simp] theorem one_im : (1 : Amplitude R).im = 0 := rfl
@[simp] theorem add_re (z w : Amplitude R) : (z + w).re = z.re + w.re := rfl
@[simp] theorem add_im (z w : Amplitude R) : (z + w).im = z.im + w.im := rfl
@[simp] theorem sub_re (z w : Amplitude R) : (z - w).re = z.re - w.re := rfl
@[simp] theorem sub_im (z w : Amplitude R) : (z - w).im = z.im - w.im := rfl
@[simp] theorem neg_re (z : Amplitude R) : (-z).re = -z.re := rfl
@[simp] theorem neg_im (z : Amplitude R) : (-z).im = -z.im := rfl
@[simp] theorem mul_re (z w : Amplitude R) : (z * w).re = z.re * w.re - z.im * w.im := rfl
@[simp] theorem mul_im (z w : Amplitude R) : (z * w).im = z.re * w.im + z.im * w.re := rfl

/-- A real number as an amplitude. -/
def ofReal (x : R) : Amplitude R := ⟨x, 0⟩

/-- The complex conjugate. -/
def conj (z : Amplitude R) : Amplitude R := ⟨z.re, -z.im⟩

/-- The squared modulus, which is the weight of a basis state with this amplitude. -/
def normSq (z : Amplitude R) : R := z.re * z.re + z.im * z.im

/-- The modulus. -/
def modulus (z : Amplitude R) : R := Scalar.hypot z.re z.im

/-- Both parts divided by a scalar, which is multiplying them by its reciprocal. -/
def divReal (z : Amplitude R) (x : R) : Amplitude R := ⟨z.re * (1 / x), z.im * (1 / x)⟩

@[simp] theorem ofReal_re (x : R) : (ofReal x).re = x := rfl
@[simp] theorem ofReal_im (x : R) : (ofReal x).im = 0 := rfl
@[simp] theorem conj_re (z : Amplitude R) : z.conj.re = z.re := rfl
@[simp] theorem conj_im (z : Amplitude R) : z.conj.im = -z.im := rfl
@[simp] theorem divReal_re (z : Amplitude R) (x : R) : (z.divReal x).re = z.re * (1 / x) := rfl
@[simp] theorem divReal_im (z : Amplitude R) (x : R) : (z.divReal x).im = z.im * (1 / x) := rfl

/-- The power by repeated squaring, from the low binary digits of the exponent to the high
ones: `acc` is the product so far and `square` the power of the base for the next digit. -/
def powFrom (acc square : Amplitude R) (n : Nat) : Amplitude R :=
  if n = 0 then acc
  else powFrom (if n % 2 = 1 then acc * square else acc) (square * square) (n / 2)
termination_by n

end Arithmetic

/-- The power of an amplitude. Up to the hundredth power it is a product; beyond that it is
taken in polar form, as the power of the modulus at a multiple of the angle. -/
def pow [Angles R] (z : Amplitude R) (n : Nat) : Amplitude R :=
  if n ≤ 100 then powFrom 1 z n
  else
    let length := Angles.pow z.modulus n
    let phase := Angles.angle z.im z.re * Scalar.ofNat n
    ⟨length * Angles.cos phase, length * Angles.sin phase⟩

/-- The point of the unit circle at the given angle. -/
def onCircle [Angles R] (angle : R) : Amplitude R := ⟨Angles.cos angle, Angles.sin angle⟩

/-- The primitive root of unity of order `d` that comes first after one. -/
def rootOfUnity [Angles R] (d : Nat) : Amplitude R :=
  onCircle ((1 + 1) * Angles.pi / Scalar.ofNat d)

/-- An amplitude is carried into another scalar type part by part. -/
instance {S : Type} [Rounding S R] : Rounding (Amplitude S) (Amplitude R) :=
  ⟨fun z => ⟨Rounding.round z.re, Rounding.round z.im⟩⟩

end Amplitude

/-- The sum of the first `n` values of a sequence, from the first to the last. -/
def sumTo {K : Type} [Zero K] [Add K] (f : Nat → K) : Nat → K
  | 0 => 0
  | n + 1 => sumTo f n + f n

@[simp] theorem sumTo_zero {K : Type} [Zero K] [Add K] (f : Nat → K) : sumTo f 0 = 0 := rfl

@[simp] theorem sumTo_succ {K : Type} [Zero K] [Add K] (f : Nat → K) (n : Nat) :
    sumTo f (n + 1) = sumTo f n + f n := rfl

/-- Sequences that agree on the first `n` places have the same sum over them. -/
theorem sumTo_congr {K : Type} [Zero K] [Add K] {f g : Nat → K} {n : Nat}
    (h : ∀ i < n, f i = g i) : sumTo f n = sumTo g n := by
  induction n with
  | zero => rfl
  | succ n ih =>
    rw [sumTo_succ, sumTo_succ, ih fun i hi => h i (Nat.lt_succ_of_lt hi), h n (Nat.lt_succ_self n)]

end QuditSim
