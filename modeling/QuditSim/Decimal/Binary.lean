import QuditSim.Arithmetic

/-!
# Binary values as fractions

A finite double is a quotient of natural numbers with a sign. `Binary.ofFloat` reads that
quotient off the bits, and `roundQuotient` rounds a quotient to the nearest natural number,
a half going to the even neighbour. Every decimal text of the library is made from these two.
-/

namespace QuditSim.Decimal

/-- A finite double, as a sign and the exact quotient `num / den`. -/
structure Binary where
  /-- Whether the sign bit is set. -/
  negative : Bool
  /-- The numerator of the magnitude. -/
  num : Nat
  /-- The denominator of the magnitude, a power of two. -/
  den : Nat

/-- The exact value of a finite double. -/
def Binary.ofFloat (x : Float) : Binary :=
  let bits : Nat := x.toBits.toNat
  let exponent : Nat := bits / 2 ^ 52 % 2 ^ 11
  let fraction : Nat := bits % 2 ^ 52
  let mantissa := if exponent = 0 then fraction else 2 ^ 52 + fraction
  -- The unit of the mantissa is `2 ^ (exponent - 1075)`, and that of the least exponent for zero.
  let unit := max exponent 1
  { negative := bits / 2 ^ 63 = 1
    num := mantissa * 2 ^ (unit - 1075)
    den := 2 ^ (1075 - unit) }

/-- The quotient rounded to the nearest natural number, a half to the even neighbour. -/
def roundQuotient (num den : Nat) : Nat :=
  let quotient := num / den
  match compare (2 * (num % den)) den with
  | .lt => quotient
  | .gt => quotient + 1
  | .eq => quotient + quotient % 2

/-- The value times a power of ten, as a numerator and a denominator. -/
def Binary.scaled (x : Binary) (power : Int) : Nat × Nat :=
  (x.num * 10 ^ power.toNat, x.den * 10 ^ (-power).toNat)

/-- Lowers `k` while the value is below `10 ^ (k - 1)`, for at most `fuel` steps. -/
private def lowerExponent (x : Binary) : Nat → Int → Int
  | 0, k => k
  | fuel + 1, k =>
    let (num, den) := x.scaled (1 - k)
    if num < den then lowerExponent x fuel (k - 1) else k

/-- The least exponent `k` with the value below `10 ^ k`, for a value that is not zero: an
upper bound from the binary logarithm, lowered while it is not least. -/
def Binary.decimalExponent (x : Binary) : Int :=
  let log : Int := (x.num.log2 : Int) - x.den.log2
  lowerExponent x 4 (log * 30103 / 100000 + 2)

end QuditSim.Decimal
