import QuditSim.Arithmetic

/-!
# Tallies

A tally counts by name. Names stand in the order of their first use, and a name that was never
used is not there.
-/

namespace QuditSim

/-- Counts by name, in the order of first use. -/
abbrev Tally : Type := List (String × Nat)

namespace Tally

/-- The tally with the count of a name raised. -/
def add (tally : Tally) (name : String) (count : Nat) : Tally :=
  match tally with
  | [] => [(name, count)]
  | (other, n) :: rest =>
    if other = name then (other, n + count) :: rest else (other, n) :: add rest name count

/-- The count of a name that was used. -/
def count? (tally : Tally) (name : String) : Option Nat :=
  (tally.find? (·.1 == name)).map (·.2)

/-- The sum of all counts. -/
def total (tally : Tally) : Nat := (tally.map (·.2)).sum

/-- Raising a count raises the sum. -/
theorem total_add (tally : Tally) (name : String) (count : Nat) :
    (add tally name count).total = tally.total + count := by
  induction tally with
  | nil => simp [add, total]
  | cons entry rest ih =>
    obtain ⟨known, n⟩ := entry
    unfold add
    split
    · simp [total]
      omega
    · simp only [total, List.map_cons, List.sum_cons] at ih ⊢
      omega

end Tally

end QuditSim
