import QuditSim.Arithmetic

/-!
# Scalars

The real arithmetic that a register of qudits is simulated in. Every numeric definition of
the library is stated over an arbitrary `Scalar`, so the same text runs in double precision,
runs in single precision, and can be read over the real numbers.

- `Scalar` collects the ring operations, division, square roots and comparisons.
- `Angles` adds the trigonometry that roots of unity are built from.
- `Rounding` carries a value of one scalar type into another.
-/

namespace QuditSim

/-- Real arithmetic: the four operations, square roots, comparisons and decimal literals. A
floating-point instance has values that are not finite, and a value that is not a number
compares with nothing, not even with itself. -/
class Scalar (R : Type) extends Zero R, One R, Add R, Sub R, Mul R, Div R, Neg R,
    OfScientific R, LT R, LE R, BEq R where
  /-- Comparing two scalars is decidable. -/
  decLT : (a b : R) → Decidable (a < b)
  /-- Comparing two scalars is decidable. -/
  decLE : (a b : R) → Decidable (a ≤ b)
  /-- A natural number as a scalar. -/
  ofNat : Nat → R
  /-- The square root of a scalar that is not negative. -/
  sqrt : R → R
  /-- The length of the hypotenuse over two legs, `sqrt (a * a + b * b)`. -/
  hypot : R → R → R
  /-- Whether the value is a number and not an infinity. -/
  isFinite : R → Bool
  /-- The double that stands for the value in a text. -/
  toFloat : R → Float

/-- The strict order of scalars is decidable. -/
instance Scalar.instDecidableLT {R : Type} [Scalar R] (a b : R) : Decidable (a < b) := Scalar.decLT a b

/-- The order of scalars is decidable. -/
instance Scalar.instDecidableLE {R : Type} [Scalar R] (a b : R) : Decidable (a ≤ b) := Scalar.decLE a b

/-- Scalars with the trigonometry of the unit circle. -/
class Angles (R : Type) extends Scalar R where
  /-- Half a turn. -/
  pi : R
  /-- The cosine of an angle. -/
  cos : R → R
  /-- The sine of an angle. -/
  sin : R → R
  /-- The angle, in the order ordinate, abscissa, of a point of the plane. -/
  angle : R → R → R
  /-- The power of a scalar that is not negative. -/
  pow : R → Nat → R

/-- How a value of one scalar type is carried into another. -/
class Rounding (S R : Type) where
  /-- The nearest value of the second type. -/
  round : S → R

/-- A scalar type is carried into itself without a change. -/
instance Rounding.same (R : Type) : Rounding R R := ⟨id⟩

@[simp] theorem Rounding.round_same {R : Type} (x : R) : (Rounding.round x : R) = x := rfl

/-- A double is carried into single precision by rounding to nearest. -/
instance : Rounding Float Float32 := ⟨Float.toFloat32⟩

/-- A number of single precision is a double. -/
instance : Rounding Float32 Float := ⟨Float32.toFloat⟩

/-- A finite double as `m * 2 ^ q` with the sign dropped. -/
private def magnitudeParts (x : Float) : Nat × Int :=
  let bits : Nat := x.toBits.toNat
  let exponent : Nat := bits / 2 ^ 52 % 2 ^ 11
  let fraction : Nat := bits % 2 ^ 52
  if exponent = 0 then (fraction, -1074) else (2 ^ 52 + fraction, (exponent : Int) - 1075)

/-- Newton's iteration for the integer square root of `n`, from a guess that is not below it.
The guesses fall until they reach the root. -/
private def rootFrom (n : Nat) : Nat → Nat → Nat
  | 0, guess => guess
  | fuel + 1, guess =>
    let next := (guess + n / guess) / 2
    if next < guess then rootFrom n fuel next else guess

/-- The length of the hypotenuse over two finite legs, rounded once: the sum of the squares
is exact, its root is taken to more than sixty binary digits, and a last digit remembers
whether anything was cut off. -/
private def finiteHypot (x y : Float) : Float :=
  let (m, p) := magnitudeParts x
  let (n, q) := magnitudeParts y
  let low := min p q
  let square := (m * 2 ^ (p - low).toNat) ^ 2 + (n * 2 ^ (q - low).toNat) ^ 2
  let half : Int := ((square.log2 : Int) - 128) / 2
  let scaled := if half < 0 then square * 2 ^ (-2 * half).toNat else square / 2 ^ (2 * half).toNat
  let root := rootFrom scaled (scaled.log2 + 2) (2 ^ (scaled.log2 / 2 + 1))
  let exact := root * root = scaled ∧ (half < 0 ∨ square % 2 ^ (2 * half).toNat = 0)
  (Float.ofNat (if exact then 2 * root else 2 * root + 1)).scaleB (low + half - 1)

/-- Double precision. -/
instance : Scalar Float where
  decLT := inferInstance
  decLE := inferInstance
  ofNat := Float.ofNat
  sqrt := Float.sqrt
  hypot x y :=
    if x.isInf || y.isInf then 1.0 / 0.0
    else if x.isNaN || y.isNaN then 0.0 / 0.0
    else if x == 0.0 then y.abs
    else if y == 0.0 then x.abs
    else finiteHypot x y
  isFinite := Float.isFinite
  toFloat := id

/-- Single precision. -/
instance : Scalar Float32 where
  decLT := inferInstance
  decLE := inferInstance
  ofNat := Float32.ofNat
  sqrt := Float32.sqrt
  hypot x y := (Scalar.hypot x.toFloat y.toFloat : Float).toFloat32
  isFinite := Float32.isFinite
  toFloat := Float32.toFloat

/-- The trigonometry of double precision. -/
instance : Angles Float where
  pi := 3.141592653589793
  cos := Float.cos
  sin := Float.sin
  angle := Float.atan2
  pow x n := Float.pow x (Float.ofNat n)

end QuditSim
