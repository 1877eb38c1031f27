import QuditSim.Proofs.Exact

/-!
# Exact arithmetic with values that are not finite

Doubles have infinities and values that are no numbers, and the checks of the library look for them.
The real numbers have neither. `Extended` has the real numbers, with exact arithmetic, and these
values beside them: an operation that has no result has an infinity or no number for one, as it has
in doubles.

- `Extended` is a scalar type. `Extended.isFinite_iff`: its finite values are the real numbers.
- `Extended.foldl_finite` and `Extended.finite_div`: sums and quotients of real numbers are exact.
- `Extended.sqrt_ne_zero`: what is positive has a root that can be divided by.
-/

namespace QuditSim

/-- A real number, an infinity, or no number. -/
inductive Extended where
  /-- A real number. -/
  | finite (x : ℝ)
  /-- An infinity, with its sign. -/
  | infinite (negative : Bool)
  /-- No number. -/
  | undefined

namespace Extended

/-- The sum. Infinities of different signs have none. -/
noncomputable def add : Extended → Extended → Extended
  | finite x, finite y => finite (x + y)
  | finite _, infinite s => infinite s
  | infinite s, finite _ => infinite s
  | infinite s, infinite t => if s = t then infinite s else undefined
  | undefined, _ => undefined
  | _, undefined => undefined

/-- The negative. -/
noncomputable def neg : Extended → Extended
  | finite x => finite (-x)
  | infinite s => infinite (!s)
  | undefined => undefined

/-- The product. An infinity and zero have none. -/
noncomputable def mul : Extended → Extended → Extended
  | finite x, finite y => finite (x * y)
  | finite x, infinite s => if x = 0 then undefined else infinite (s != decide (x < 0))
  | infinite s, finite y => if y = 0 then undefined else infinite (s != decide (y < 0))
  | infinite s, infinite t => infinite (s != t)
  | undefined, _ => undefined
  | _, undefined => undefined

/-- The quotient. A number divided by zero is infinite, unless it is zero itself. -/
noncomputable def div : Extended → Extended → Extended
  | finite x, finite y =>
    if y = 0 then if x = 0 then undefined else infinite (decide (x < 0)) else finite (x / y)
  | finite _, infinite _ => finite 0
  | infinite s, finite y => infinite (s != decide (y < 0))
  | infinite _, infinite _ => undefined
  | undefined, _ => undefined
  | _, undefined => undefined

/-- The strict order. What is no number compares with nothing. -/
def Less : Extended → Extended → Prop
  | finite x, finite y => x < y
  | finite _, infinite s => s = false
  | infinite s, finite _ => s = true
  | infinite s, infinite t => s = true ∧ t = false
  | undefined, _ => False
  | _, undefined => False

/-- The order. -/
def AtMost : Extended → Extended → Prop
  | finite x, finite y => x ≤ y
  | finite _, infinite s => s = false
  | infinite s, finite _ => s = true
  | infinite s, infinite t => s = true ∨ t = false
  | undefined, _ => False
  | _, undefined => False

/-- Whether two values are the same number or infinity. -/
noncomputable def same : Extended → Extended → Bool
  | finite x, finite y => decide (x = y)
  | infinite s, infinite t => s == t
  | _, _ => false

/-- The square root. A negative number has none. -/
noncomputable def root : Extended → Extended
  | finite x => if x < 0 then undefined else finite √x
  | infinite s => if s then undefined else infinite false
  | undefined => undefined

/-- The length of the hypotenuse, which is infinite if a leg is. -/
noncomputable def hypotenuse : Extended → Extended → Extended
  | finite x, finite y => finite √(x * x + y * y)
  | infinite _, _ => infinite false
  | _, infinite _ => infinite false
  | _, _ => undefined

open Classical in
/-- Real arithmetic with values that are not finite. -/
noncomputable instance : Scalar Extended where
  zero := finite 0
  one := finite 1
  add := add
  sub x y := add x (neg y)
  mul := mul
  div := div
  neg := neg
  ofScientific m s e := finite (OfScientific.ofScientific m s e)
  lt := Less
  le := AtMost
  beq := same
  decLT _ _ := inferInstance
  decLE _ _ := inferInstance
  ofNat n := finite n
  sqrt := root
  hypot := hypotenuse
  isFinite
    | finite _ => true
    | _ => false
  toFloat _ := 0

variable {x y : ℝ} {w : Extended}

theorem zero_lt_finite : 0 < finite x ↔ 0 < x := Iff.rfl

theorem finite_lt_zero : finite x < 0 ↔ x < 0 := Iff.rfl

theorem finite_le_zero : finite x ≤ 0 ↔ x ≤ 0 := Iff.rfl

/-- The finite values are the real numbers. -/
theorem isFinite_iff : Scalar.isFinite w = true ↔ ∃ x, w = finite x := by
  cases w with
  | finite x => exact ⟨fun _ => ⟨x, rfl⟩, fun _ => rfl⟩
  | infinite s => exact ⟨fun h => Bool.noConfusion h, nofun⟩
  | undefined => exact ⟨fun h => Bool.noConfusion h, nofun⟩

/-- A real number is divided by another one that is not zero. -/
theorem finite_div (h : y ≠ 0) : finite x / finite y = finite (x / y) := if_neg h

/-- A sum of real numbers is the sum. -/
theorem foldl_finite (xs : List ℝ) (start : ℝ) :
    (xs.map finite).foldl (· + ·) (finite start) = finite (start + xs.sum) := by
  induction xs generalizing start with
  | nil => simp
  | cons x xs ih =>
    rw [List.map_cons, List.foldl_cons, List.sum_cons, ← add_assoc]
    exact ih (start + x)

/-- A sum of real numbers is the sum. -/
theorem sum_finite (xs : List ℝ) : (xs.map finite).sum = finite xs.sum := by
  induction xs with
  | nil => rfl
  | cons x xs ih =>
    rw [List.map_cons, List.sum_cons, List.sum_cons, ih]
    rfl

/-- Values that are finite and none of which is negative are real numbers of that sort. -/
theorem exists_map_finite {weights : List Extended}
    (h : ∀ w ∈ weights, Scalar.isFinite w = true ∧ ¬ w < 0) :
    ∃ xs : List ℝ, weights = xs.map finite ∧ ∀ x ∈ xs, 0 ≤ x := by
  induction weights with
  | nil => exact ⟨[], rfl, nofun⟩
  | cons w weights ih =>
    obtain ⟨⟨hfinite, hnonneg⟩, hrest⟩ := List.forall_mem_cons.mp h
    obtain ⟨x, rfl⟩ := isFinite_iff.mp hfinite
    obtain ⟨xs, rfl, hxs⟩ := ih hrest
    exact ⟨x :: xs, rfl, List.forall_mem_cons.mpr ⟨not_lt.mp hnonneg, hxs⟩⟩

/-- What is positive has a root that is not zero. -/
theorem sqrt_ne_zero (h : 0 < w) : Scalar.sqrt w ≠ 0 := by
  cases w with
  | finite x =>
    have hx : 0 < x := h
    have hroot : Scalar.sqrt (finite x) = finite √x := if_neg (not_lt.mpr hx.le)
    rw [hroot]
    intro hzero
    exact (Real.sqrt_pos.mpr hx).ne' (finite.inj hzero)
  | infinite s =>
    obtain rfl : s = false := h
    exact fun hzero => nomatch hzero
  | undefined => exact h.elim

end Extended

end QuditSim
