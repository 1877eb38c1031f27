import QuditSim.Extent
import QuditSim.State.Fault
import QuditSim.Digits

/-!
# State vectors

The state of a register of qudits of one dimension is the vector of the amplitudes of its
basis states. The qudit at position zero is the least significant digit of a basis index.

- `StateVector.quditCount` finds the number of qudits from the length.
- `StateVector.norm` and `StateVector.assertNormalized` check the length of the vector.
-/

namespace QuditSim

/-- The amplitudes of the basis states of a register. -/
abbrev StateVector (R : Type) : Type := Array (Amplitude R)

namespace StateVector

section Access

variable {R : Type}

/-- The state whose amplitudes are given by a function. -/
def build (size : Nat) (f : Nat → Amplitude R) : StateVector R :=
  Array.ofFn fun i : Fin size => f i

@[simp] theorem size_build (size : Nat) (f : Nat → Amplitude R) : (build size f).size = size := by
  simp [build]

variable [Scalar R]

/-- The amplitude of a basis state, and zero beyond the last. -/
def amplitude (state : StateVector R) (x : Nat) : Amplitude R := state.getD x 0

/-- A built state has the amplitudes it was built from. -/
theorem amplitude_build {size x : Nat} (f : Nat → Amplitude R) (h : x < size) :
    amplitude (build size f) x = f x := by
  simp [amplitude, build, h]

/-- States of one length with equal amplitudes are equal. -/
theorem ext_amplitude {a b : StateVector R} (hs : a.size = b.size)
    (h : ∀ x < a.size, a.amplitude x = b.amplitude x) : a = b := by
  apply Array.ext hs
  intro i ha hb
  have := h i ha
  simpa [amplitude, ha, hb] using this

/-- The basis state of a given index in a vector of a given length. -/
def basisState (size index : Nat) : StateVector R := build size fun x => if x = index then 1 else 0

/-- Refuses vectors of too many amplitudes. An index is a signed word of 64 bits, and there may be
less room than for a word of them. -/
def checkSize [Capacity] (size : Nat) : Except StateFault Unit :=
  if 2 ^ 63 ≤ size then .error .unindexable
  else if Capacity.amplitudes ≤ size then .error .tooLarge
  else .ok ()

/-- Refuses registers of `n` qudits that have too many basis states. -/
def checkExtent [Capacity] (n d : Nat) : Except StateFault Unit :=
  if 63 ≤ n then .error .unindexable else checkSize (d ^ n)

/-- The state of `n` qudits that are all in their state zero. -/
def zero (n d : Nat) : StateVector R := basisState (d ^ n) 0

/-- Refuses a register of fewer than no qudits, and a dimension below two. -/
def checkRegister (n dim : Argument) : Except StateFault Unit :=
  match n.number? with
  | none => .error .wrongKind
  | some count =>
    if count.below 0 then .error (.fewQudits n)
    else
      match dim.number? with
      | none => .error .wrongKind
      | some d => if d.below 2 then .error (.smallDimension dim) else .ok ()

/-- Whether the power of two numbers, of which one is a double, is too large for a double. -/
def overflows (base exponent : Number) : Bool :=
  let finite (x : Number) : Bool :=
    match x with
    | .int _ => true
    | .float x => x.isFinite
  finite base && finite exponent && (Float.pow base.toFloat exponent.toFloat).isInf

/-- The state of a register that was checked. -/
def zeroOf [Capacity] (n dim : Argument) : Except StateFault (StateVector R) :=
  match n.index?, dim.index? with
  | some n, some dim => do
    checkExtent n.toNat dim.toNat
    return zero n.toNat dim.toNat
  -- a power of doubles may overflow before it is refused as a length
  | _, _ =>
    match dim.number?, n.number? with
    | some base, some exponent => .error (if overflows base exponent then .overflow else .wrongKind)
    | _, _ => .error .wrongKind

/-- The state of `n` qudits that are all in their state zero, for arguments that are checked. -/
def zero? [Capacity] (n dim : Argument) : Except StateFault (StateVector R) := do
  checkRegister n dim
  zeroOf n dim

end Access

/-! ## The number of qudits -/

/-- Multiplies a total by the dimension until it reaches a size, at most `fuel` times, and
answers with the total and with the number of factors. -/
def countFactors (dim : Int) (size : Nat) : Nat → Int → Nat → Option (Int × Nat)
  | 0, _, _ => none
  | fuel + 1, total, n =>
    if total < size then countFactors dim size fuel (total * dim) (n + 1) else some (total, n)

/-- Multiplies a total by a dimension that is a double until it reaches a size, at most `fuel`
times, and answers with the total and with the number of factors. -/
def countFractions (dim size : Float) : Nat → Float → Nat → Option (Float × Nat)
  | 0, _, _ => none
  | fuel + 1, total, n =>
    if total < size then countFractions dim size fuel (total * dim) (n + 1) else some (total, n)

/-- The most factors of a dimension that is a double. -/
def fractionLimit (dim : Float) : Nat := if dim.abs ≤ 1 then 1 else 2 ^ 26

/-- The number of qudits of a dimension that a vector of a given length holds. A total of
integers that grows reaches the size within `size + 2` factors; one that does not grow never
does. A vector of one amplitude holds no qudits, whatever the dimension is. -/
def quditCount (size : Nat) (dim : Argument) : Except StateFault Nat :=
  match dim.number? with
  | some (.int d) =>
    match countFactors d size (size + 2) 1 0 with
    | none => .error .endless
    | some (total, n) => if total = size then .ok n else .error (.notPower size dim)
  | some (.float d) =>
    match countFractions d (Float.ofNat size) (fractionLimit d) 1 0 with
    | none => .error .endless
    | some (total, n) =>
      if total == Float.ofNat size then .ok n else .error (.notPower size dim)
  -- the dimension is not looked at for a vector that needs no factor
  | none =>
    match size with
    | 0 => .error (.notPower size dim)
    | 1 => .ok 0
    | _ => .error .wrongKind

/-! ## Norms -/

section Norms

variable {R : Type} [Scalar R]

/-- The sum of the squared moduli of the amplitudes. -/
def normSq (state : StateVector R) : R := sumTo (fun x => (state.amplitude x).normSq) state.size

/-- The length of the vector. -/
def norm (state : StateVector R) : R := Scalar.sqrt state.normSq

end Norms

end StateVector

/-- How far apart two scalars are. -/
def Scalar.distance {R : Type} [Scalar R] (x y : R) : R := if x < y then y - x else x - y

/-- How far from one a norm may be when nothing else is said. -/
def normTolerance {R : Type} [Scalar R] : Written R := ⟨1e-6, "1e-06"⟩

section Normalization

variable {R : Type} [Scalar R]

/-- Whether a norm is one up to a tolerance. -/
def isUnit (tolerance : R) (norm : R) : Bool :=
  norm == 1 || (Scalar.isFinite (Scalar.distance norm 1) &&
    decide (Scalar.distance norm 1 ≤ tolerance))

/-- Refuses norms that are not finite. -/
def checkFinite (norms : Tensor R) : Except StateFault Unit :=
  if norms.entries.any fun norm => !Scalar.isFinite norm then .error .normNotFinite else .ok ()

/-- Refuses finite norms that are not one up to a tolerance. -/
def checkUnit (tolerance : Written R) (norms : Tensor R) : Except StateFault Unit :=
  if norms.entries.all (isUnit tolerance.value) then .ok ()
  else .error (.notNormalized tolerance.text (norms.map Scalar.toFloat))

/-- Refuses norms that are not one up to a tolerance. -/
def checkNorms (tolerance : Written R) (norms : Tensor R) : Except StateFault Unit := do
  checkFinite norms
  checkUnit tolerance norms

/-- The norms of a tensor over its last index. -/
def Tensor.norms (t : Operator R) : Except StateFault (Tensor R) :=
  match t.shape with
  | [] => .error .noIndex
  | shape =>
    let width := shape.getLast?.getD 0
    .ok (.ofFn shape.dropLast fun i =>
      (StateVector.build width fun j => t.get (i * width + j)).norm)

/-- Refuses a state whose norm is not one up to a tolerance. -/
def StateVector.assertNormalized (tolerance : Written R) (state : StateVector R) :
    Except StateFault Unit :=
  checkNorms tolerance (.ofFn [] fun _ => state.norm)

/-- A state as it is, or refused when checking is on and its norm is not one. -/
def StateVector.checked (checking : Bool) (state : StateVector R) :
    Except StateFault (StateVector R) :=
  if checking then do
    state.assertNormalized normTolerance
    return state
  else .ok state

@[simp] theorem StateVector.checked_false (state : StateVector R) :
    state.checked false = .ok state := rfl

/-- The weight of an amplitude: its squared modulus. -/
def Amplitude.weight (z : Amplitude R) : R := z.modulus * z.modulus

/-- The weights of all entries of a tensor. -/
def Tensor.weights (t : Operator R) : Tensor R := t.map Amplitude.weight

end Normalization

end QuditSim
