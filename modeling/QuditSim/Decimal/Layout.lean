import QuditSim.Decimal.Binary

/-!
# Decimal texts of doubles

The ways in which a double is written.

- `shortest`: the fewest digits that read back as the same double, in positional form from
  `0.0001` up to below `1e16` and with an exponent outside.
- `fixed`: a fixed number of places after the point.
- `scientific`: one digit before the point, a fixed number after it, and an exponent.
- `general`: a fixed number of significant digits without the zeros at the end, in positional
  form unless the exponent is below `-4` or reaches the number of digits.
- `display`: a fixed number of places, with an exponent from a million on, and no sign on a
  text that reads as zero.

The digits of all but the first are those of the exact binary value, a half going to even.
-/

namespace QuditSim.Decimal

/-- The texts of the values that have no digits. -/
def special? (x : Float) : Option String :=
  if x.isNaN then some "nan"
  else if x.isInf then some (if x < 0 then "-inf" else "inf")
  else none

/-- The minus sign of a negative value, the negative zero included. -/
def Binary.sign (x : Binary) : String := if x.negative then "-" else ""

/-- A natural number padded with zeros on the left to a least width. -/
def padded (n width : Nat) : String :=
  let digits := toString n
  String.ofList (List.replicate (width - digits.length) '0') ++ digits

/-- The magnitude `n / 10 ^ places` with a point before the last `places` digits. -/
def pointed (n places : Nat) : String :=
  if places = 0 then toString n
  else toString (n / 10 ^ places) ++ "." ++ padded (n % 10 ^ places) places

/-- The exponent part of a text: a sign and at least two digits. -/
def exponentPart (e : Int) : String :=
  "e" ++ (if e < 0 then "-" else "+") ++ padded e.natAbs 2

/-- A fixed number of places after the point. -/
def fixed (places : Nat) (x : Float) : String :=
  match special? x with
  | some text => text
  | none =>
    let b := Binary.ofFloat x
    b.sign ++ pointed (roundQuotient (b.num * 10 ^ places) b.den) places

/-- The magnitude rounded to `digits` significant digits: the digits as a number and the
exponent of the first of them. -/
def Binary.significant (x : Binary) (digits : Nat) : Nat × Int :=
  if x.num = 0 then (0, 0)
  else
    let k := x.decimalExponent
    let (num, den) := x.scaled (digits - k)
    let n := roundQuotient num den
    -- Rounding up may have reached the next power of ten.
    if n = 10 ^ digits then (10 ^ (digits - 1), k) else (n, k - 1)

/-- One digit before the point and `places` after it. -/
def scientific (places : Nat) (x : Float) : String :=
  match special? x with
  | some text => text
  | none =>
    let b := Binary.ofFloat x
    let (n, e) := b.significant (places + 1)
    b.sign ++ pointed n places ++ exponentPart e

/-- A fixed number of places, with an exponent from a million on. A text that reads as zero has
no sign. -/
def display (places : Nat) (x : Float) : String :=
  let text := if x.isFinite && 1e6 ≤ x.abs then scientific places x else fixed places x
  match text.toList with
  | '-' :: rest => if rest.all fun c => c == '0' || c == '.' then String.ofList rest else text
  | _ => text

/-- A number without the zeros at its end, and how many there were. At most `fuel` zeros are
taken off. -/
private def stripZeros : Nat → Nat → Nat × Nat
  | 0, n => (n, 0)
  | fuel + 1, n =>
    if n ≠ 0 ∧ n % 10 = 0 then
      let (m, zeros) := stripZeros fuel (n / 10)
      (m, zeros + 1)
    else (n, 0)

/-- Digits and the exponent of the first of them, written with an exponent. -/
private def withExponent (n : Nat) (e : Int) : String :=
  pointed n ((toString n).length - 1) ++ exponentPart e

/-- The given number of significant digits, without zeros at the end. -/
def general (digits : Nat) (x : Float) : String :=
  match special? x with
  | some text => text
  | none =>
    let b := Binary.ofFloat x
    let (n, e) := b.significant digits
    let (m, zeros) := stripZeros digits n
    b.sign ++
      if n = 0 then "0"
      else if -4 ≤ e ∧ e < digits then
        -- zeros at the end were taken off, and before the point they are put back
        let places := (digits : Int) - 1 - e - zeros
        pointed (m * 10 ^ (-places).toNat) places.toNat
      else withExponent m e

/-- Whether `n * 10 ^ e` reads as the given double. -/
def readsAs (x : Float) (n : Nat) (e : Int) : Bool :=
  Float.ofScientific n (e < 0) e.natAbs == x

/-- The number with `digits` digits that reads as the double, if there is one: of the two
neighbours of the value on that grid the nearer that does, on a tie the even one. -/
private def onGrid? (x : Float) (b : Binary) (k : Int) (digits : Nat) : Option (Nat × Int) :=
  let (num, den) := b.scaled (digits - k)
  let nearer := roundQuotient num den
  let farther := if nearer = num / den then nearer + 1 else num / den
  let e := k - digits
  if readsAs x.abs nearer e then some (nearer, e)
  else if readsAs x.abs farther e then some (farther, e)
  else none

/-- The fewest digits that read back as the double, for a finite double that is not zero, as
a number and a power of ten. Seventeen digits are always enough. -/
def shortestDigits (x : Float) : Nat × Int :=
  let b := Binary.ofFloat x
  let k := b.decimalExponent
  match (List.range 17).findSome? fun i => onGrid? x b k (i + 1) with
  | some (n, e) =>
    let (m, zeros) := stripZeros 17 n
    (m, e + zeros)
  | none => (roundQuotient (b.scaled (17 - k)).1 (b.scaled (17 - k)).2, k - 17)

/-- The fewest digits that read back as the same double. A value without a fraction keeps
`.0` behind its digits in positional form. -/
def shortest (x : Float) : String :=
  match special? x with
  | some text => text
  | none =>
    let b := Binary.ofFloat x
    b.sign ++
      if b.num = 0 then "0.0"
      else
        let (n, p) := shortestDigits x
        let e : Int := p + (toString n).length - 1
        -- outside of these exponents the text has an exponent
        if -4 ≤ e ∧ e < 16 then
          if p < 0 then pointed n p.natAbs else toString (n * 10 ^ p.toNat) ++ ".0"
        else withExponent n e

example : shortest 0.1 = "0.1" := by decide +kernel
example : shortest 1e16 = "1e+16" := by decide +kernel
example : shortest (-0.0) = "-0.0" := by decide +kernel
example : shortest 0.00001 = "1e-05" := by decide +kernel
example : fixed 3 0.0625 = "0.062" := by decide +kernel
example : display 3 (-0.0001) = "0.000" := by decide +kernel
example : scientific 2 99999.0 = "1.00e+05" := by decide +kernel
example : general 6 0.3 = "0.3" := by decide +kernel
example : general 6 1234567.0 = "1.23457e+06" := by decide +kernel

end QuditSim.Decimal
