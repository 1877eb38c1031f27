import QuditSim.Decimal.Layout

/-!
# Numbers as they are written

A number in a document or in an argument is either an integer, of any size, or a double. The
two are kept apart because a message shows which of them was given.
-/

namespace QuditSim

/-- An integer or a double. -/
inductive Number where
  /-- An integer of any size. -/
  | int (value : Int)
  /-- A double, which may be an infinity or not a number. -/
  | float (value : Float)
deriving Inhabited

namespace Number

instance : Coe Int Number := ⟨.int⟩

/-- The number as messages show it. -/
def text : Number → String
  | int value => toString value
  | float value => Decimal.shortest value

/-- The nearest double. -/
def toFloat : Number → Float
  | int value => Float.ofInt value
  | float value => value

/-- Whether the number is below an integer bound. -/
def below (x : Number) (bound : Int) : Bool :=
  match x with
  | int value => value < bound
  | float value => value < Float.ofInt bound

/-- Whether the number is at least an integer bound. -/
def atLeast (x : Number) (bound : Int) : Bool :=
  match x with
  | int value => bound ≤ value
  | float value => Float.ofInt bound ≤ value

/-- Whether the two numbers have the same value. -/
def sameValue : Number → Number → Bool
  | int a, int b => a == b
  | a, b => a.toFloat == b.toFloat

/-- The integer part of a finite number; there is none of an infinity or of no number. -/
def truncate? : Number → Option Int
  | int value => some value
  | float value =>
    if value.isFinite then
      let b := Decimal.Binary.ofFloat value
      let whole : Int := b.num / b.den
      some (if b.negative then -whole else whole)
    else none

/-- The power of a number. -/
def power (x : Number) (n : Nat) : Number :=
  match x with
  | int value => int (value ^ n)
  | float value => float (Float.pow value (Float.ofNat n))

@[simp] theorem power_int (value : Int) (n : Nat) : (int value).power n = int (value ^ n) := rfl

@[simp] theorem sameValue_int (a b : Int) : (int a).sameValue (int b) = (a == b) := rfl

@[simp] theorem truncate?_int (value : Int) : (int value).truncate? = some value := rfl

@[simp] theorem below_int (value bound : Int) : (int value).below bound = decide (value < bound) :=
  rfl

@[simp] theorem atLeast_int (value bound : Int) :
    (int value).atLeast bound = decide (bound ≤ value) := rfl

end Number

/-- A value together with the text that messages show for it. -/
structure Written (R : Type) where
  /-- The value. -/
  value : R
  /-- The text of the value as it was given. -/
  text : String

/-- A number as it was given. -/
def Number.given (number : Number) : Written Number := ⟨number, number.text⟩

/-- A number as it was given, as a double. -/
def Number.givenFloat (number : Number) : Written Float := ⟨number.toFloat, number.text⟩

end QuditSim
