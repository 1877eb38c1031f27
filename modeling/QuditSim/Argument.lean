import QuditSim.Number
import QuditSim.Text.Listing

/-!
# Arguments

An index, a dimension or a count can be given as an integer, as a truth value, as a double, or
as a value that is no number. Operations compare an argument as a number (`Argument.number?`)
before they use it as an index (`Argument.index?`), and messages show it as it was given
(`Argument.text`).

For integers all of this is the arithmetic of integers: `repeats_map_int` and `meets_map_int`
say so of lists.
-/

namespace QuditSim

/-- A value that is given where a number is expected. -/
inductive Argument where
  /-- An integer. -/
  | int (value : Int)
  /-- A truth value, which counts as one or zero. -/
  | truth (value : Bool)
  /-- A double. -/
  | float (value : Float)
  /-- A value that is no number, by its text. -/
  | foreign (text : String)
deriving Inhabited

namespace Argument

instance : Coe Int Argument := ⟨int⟩

/-- A natural number as an argument. -/
def nat (value : Nat) : Argument := int value

/-- A number as an argument. -/
def ofNumber : Number → Argument
  | .int value => int value
  | .float value => float value

/-- The argument as messages show it. -/
def text : Argument → String
  | int value => toString value
  | truth value => Text.truth value
  | float value => Decimal.shortest value
  | foreign text => text

/-- The number that the argument is. -/
def number? : Argument → Option Number
  | int value => some (.int value)
  | truth value => some (.int (if value then 1 else 0))
  | float value => some (.float value)
  | foreign _ => none

/-- The integer that the argument is, if it can be used as an index. -/
def index? : Argument → Option Int
  | int value => some value
  | truth value => some (if value then 1 else 0)
  | float _ | foreign _ => none

/-- Whether two arguments are numbers of the same value. -/
def sameValue (a b : Argument) : Bool :=
  match a.number?, b.number? with
  | some x, some y => x.sameValue y
  | _, _ => false

/-- Whether a list has two items of the same value. -/
def repeats : List Argument → Bool
  | [] => false
  | item :: rest => rest.any item.sameValue || repeats rest

/-- Whether two lists share a value. -/
def meets (xs ys : List Argument) : Bool := xs.any fun x => ys.any x.sameValue

/-- A list of arguments in a message. -/
def listed (xs : List Argument) : String := Text.listed (xs.map text)

/-- The places that arguments name. A fraction names none. -/
def places? (xs : List Argument) : Option (List Nat) := xs.mapM fun x => x.index?.map Int.toNat

@[simp] theorem text_int (value : Int) : (int value).text = toString value := rfl

@[simp] theorem number?_int (value : Int) : (int value).number? = some (.int value) := rfl

@[simp] theorem index?_int (value : Int) : (int value).index? = some value := rfl

@[simp] theorem sameValue_int (a b : Int) : (int a).sameValue (int b) = (a == b) := rfl

/-- An integer has the value of an item of a list of integers just if it is one of them. -/
theorem any_sameValue_map_int (x : Int) (xs : List Int) :
    (xs.map int).any (int x).sameValue = xs.contains x := by
  induction xs with
  | nil => rfl
  | cons y ys ih => rw [List.map_cons, List.any_cons, ih, sameValue_int, List.contains_cons]

/-- A list of integers has two items of the same value just if an item occurs twice. -/
theorem repeats_map_int (xs : List Int) : repeats (xs.map int) = decide (¬ xs.Nodup) := by
  induction xs with
  | nil => rfl
  | cons x xs ih =>
    rw [List.map_cons, repeats, any_sameValue_map_int, ih]
    by_cases hx : x ∈ xs <;> simp [hx]

/-- Lists of integers share a value just if they share an item. -/
theorem meets_map_int (xs ys : List Int) :
    meets (xs.map int) (ys.map int) = xs.any ys.contains := by
  unfold meets
  rw [List.any_map]
  exact congrArg _ (funext fun x => any_sameValue_map_int x ys)

/-- Integers name the places that they are. -/
theorem places?_map_int (xs : List Int) : places? (xs.map int) = some (xs.map Int.toNat) := by
  induction xs with
  | nil => rfl
  | cons x xs ih =>
    unfold places? at ih ⊢
    simp [ih]

end Argument

/-- An argument that should be a list. -/
inductive ArgumentList where
  /-- A list. -/
  | items (items : List Argument)
  /-- A value that has no items. -/
  | single
deriving Inhabited

end QuditSim
