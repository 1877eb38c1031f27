import QuditSim.Arithmetic

/-!
# Extents

Lists, states and matrices are held in memory, and there is an end to it. Where the end is depends on
the machine: a `Capacity` says from which extent on nothing is made. What is made below is the same on
all machines. `checkListExtent` refuses lists of flags or of numbers, and `checkMatrixExtent` square
matrices.
-/

namespace QuditSim

/-- How much a machine holds: the numbers of items from which on nothing is made. -/
class Capacity where
  /-- The number of flags that are too many for a list. -/
  flags : Nat
  /-- The number of numbers that are too many for a list. -/
  numbers : Nat
  /-- The number of amplitudes that are too many for a state. -/
  amplitudes : Nat
  /-- The number of rows that are too many for a square matrix. -/
  rows : Nat

/-- A machine with some 32 gigabytes of memory. -/
@[reducible] def Capacity.common : Capacity where
  flags := 2 ^ 32
  numbers := 2 ^ 28
  amplitudes := 2 ^ 28
  rows := 2 ^ 14

/-- Why nothing of an extent is made. -/
inductive ExtentFault where
  /-- A list with more items than can be held. -/
  | longList
  /-- A list with more items than a signed word of 64 bits can count. -/
  | uncountableList
  /-- A square matrix with more entries than can be held. -/
  | largeMatrix
  /-- A square matrix with more rows than a signed word of 64 bits can count. -/
  | uncountableMatrix
deriving DecidableEq, Repr

/-- Refuses lists of as many items as a limit, or more. -/
def checkListExtent (limit n : Nat) : Except ExtentFault Unit :=
  if 2 ^ 63 ≤ n then .error .uncountableList
  else if limit ≤ n then .error .longList
  else .ok ()

/-- Refuses square matrices of too many rows. -/
def checkMatrixExtent [Capacity] (n : Nat) : Except ExtentFault Unit :=
  if 2 ^ 63 ≤ n then .error .uncountableMatrix
  else if Capacity.rows ≤ n then .error .largeMatrix
  else .ok ()

end QuditSim
