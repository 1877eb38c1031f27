/-!
# Lists in texts

Indices and shapes appear in messages as lists in square brackets and as tuples in round
brackets. A tuple of one item keeps a comma, which tells it from a number in brackets.
-/

namespace QuditSim.Text

/-- Items in square brackets, separated by commas. -/
def listed (items : List String) : String := "[" ++ ", ".intercalate items ++ "]"

/-- Items in round brackets, separated by commas. -/
def tupled : List String → String
  | [item] => "(" ++ item ++ ",)"
  | items => "(" ++ ", ".intercalate items ++ ")"

/-- A list of integers. -/
def integers (xs : List Int) : String := listed (xs.map toString)

/-- A list of natural numbers. -/
def naturals (xs : List Nat) : String := listed (xs.map toString)

/-- A shape as a tuple of its extents. -/
def shape (extents : List Nat) : String := tupled (extents.map toString)

/-- A truth value in a message. -/
def truth (b : Bool) : String := if b then "True" else "False"

example : integers [0, -1] = "[0, -1]" := by decide +kernel
example : shape [2, 2] = "(2, 2)" := by decide +kernel
example : shape [3] = "(3,)" := by decide +kernel
example : shape [] = "()" := by decide +kernel

end QuditSim.Text
