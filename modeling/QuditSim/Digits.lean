import QuditSim.Arithmetic

/-!
# Digits of basis indices

The basis states of a register of qudits of dimension `d` are numbered in base `d`: the digit
with weight `d ^ p` of an index is the state of the qudit at position `p`. This module reads
and replaces one digit (`digit`, `replaceDigit`), takes one out and puts one in
(`removeDigit`, `insertDigit`), and does the same for a list of positions whose first one
spells the most significant digit (`readDigits`, `placeDigits`, `makeRoom`).

- `digit_insertDigit` and `removeDigit_insertDigit` say that putting a digit in undoes taking
  it out, and `insertDigit_removeDigit` says the converse.
- `replaceDigit_eq_insertDigit` makes replacing a digit one of each.
-/

namespace QuditSim

/-- The digit of an index at a position. -/
def digit (d p x : Nat) : Nat := x / d ^ p % d

/-- The index with another digit at a position. -/
def replaceDigit (d p v x : Nat) : Nat := (x / d ^ (p + 1) * d + v) * d ^ p + x % d ^ p

/-- The index without its digit at a position: the digits above it move down by one. -/
def removeDigit (d p x : Nat) : Nat := x / d ^ (p + 1) * d ^ p + x % d ^ p

/-- The index with one more digit at a position: the digits from there on move up by one. -/
def insertDigit (d p v y : Nat) : Nat := (y / d ^ p * d + v) * d ^ p + y % d ^ p

/-- The number that the digits at a list of positions spell, the first one most significant. -/
def readDigits (d : Nat) : List Nat → Nat → Nat
  | [], _ => 0
  | p :: ps, x => digit d p x * d ^ ps.length + readDigits d ps x

/-- The index with the digits of `b` at a list of positions, the first one taking the most
significant digit. -/
def placeDigits (d : Nat) : List Nat → Nat → Nat → Nat
  | [], _, x => x
  | p :: ps, b, x => placeDigits d ps b (replaceDigit d p (b / d ^ ps.length % d) x)

/-- The index with a zero digit put in at each of a list of ascending positions. -/
def makeRoom (d : Nat) (positions : List Nat) (y : Nat) : Nat :=
  positions.foldl (fun y p => insertDigit d p 0 y) y

/-- The positions of a register that a list names, in ascending order. -/
def ascending (n : Nat) (positions : List Nat) : List Nat :=
  (List.range n).filter (positions.contains ·)

variable {d : Nat}

/-- A digit is below the base. -/
theorem digit_lt (h : 0 < d) (p x : Nat) : digit d p x < d := Nat.mod_lt _ h

/-- The part of an index above the inserted digit, which is the digit and what is above it. -/
theorem insertDigit_div (h : 0 < d) (p v y : Nat) :
    insertDigit d p v y / d ^ p = y / d ^ p * d + v := by
  have hp : 0 < d ^ p := Nat.pow_pos h
  unfold insertDigit
  rw [Nat.mul_comm, Nat.mul_add_div hp, Nat.div_eq_of_lt (Nat.mod_lt _ hp), Nat.add_zero]

/-- The part of an index below the inserted digit. -/
theorem insertDigit_mod (p v y : Nat) : insertDigit d p v y % d ^ p = y % d ^ p := by
  unfold insertDigit
  rw [Nat.mul_comm, Nat.mul_add_mod, Nat.mod_mod]

/-- The part of an index above a digit, from the part that starts with it. -/
theorem div_pow_succ (p x : Nat) : x / d ^ (p + 1) = x / d ^ p / d := by
  rw [Nat.pow_succ, Nat.div_div_eq_div_mul]

/-- An inserted digit is read back. -/
theorem digit_insertDigit (p y : Nat) {v : Nat} (hv : v < d) :
    digit d p (insertDigit d p v y) = v := by
  unfold digit
  rw [insertDigit_div (Nat.lt_of_le_of_lt (Nat.zero_le _) hv), Nat.mul_comm, Nat.mul_add_mod,
    Nat.mod_eq_of_lt hv]

/-- Taking an inserted digit out again changes nothing. -/
theorem removeDigit_insertDigit (p y : Nat) {v : Nat} (hv : v < d) :
    removeDigit d p (insertDigit d p v y) = y := by
  have h : 0 < d := Nat.lt_of_le_of_lt (Nat.zero_le _) hv
  unfold removeDigit
  rw [insertDigit_mod, div_pow_succ, insertDigit_div h, Nat.mul_comm (y / d ^ p) d,
    Nat.mul_add_div h, Nat.div_eq_of_lt hv, Nat.add_zero, Nat.mul_comm, Nat.div_add_mod]

/-- The part of an index above a removed digit. -/
theorem removeDigit_div (h : 0 < d) (p x : Nat) : removeDigit d p x / d ^ p = x / d ^ (p + 1) := by
  have hp : 0 < d ^ p := Nat.pow_pos h
  unfold removeDigit
  rw [Nat.mul_comm, Nat.mul_add_div hp, Nat.div_eq_of_lt (Nat.mod_lt _ hp), Nat.add_zero]

/-- The part of an index below a removed digit. -/
theorem removeDigit_mod (p x : Nat) : removeDigit d p x % d ^ p = x % d ^ p := by
  unfold removeDigit
  rw [Nat.mul_comm, Nat.mul_add_mod, Nat.mod_mod]

/-- Replacing a digit is taking it out and putting the new one in. -/
theorem replaceDigit_eq_insertDigit (h : 0 < d) (p v x : Nat) :
    replaceDigit d p v x = insertDigit d p v (removeDigit d p x) := by
  unfold replaceDigit insertDigit
  rw [removeDigit_div h, removeDigit_mod]

/-- Putting a digit back where it was taken out changes nothing. -/
theorem insertDigit_removeDigit (h : 0 < d) (p x : Nat) :
    insertDigit d p (digit d p x) (removeDigit d p x) = x := by
  unfold insertDigit digit
  rw [removeDigit_div h, removeDigit_mod, div_pow_succ, Nat.mul_comm (x / d ^ p / d) d,
    Nat.div_add_mod, Nat.mul_comm, Nat.div_add_mod]

/-- A replaced digit is read back. -/
theorem digit_replaceDigit (p x : Nat) {v : Nat} (hv : v < d) :
    digit d p (replaceDigit d p v x) = v := by
  rw [replaceDigit_eq_insertDigit (Nat.lt_of_le_of_lt (Nat.zero_le _) hv), digit_insertDigit _ _ hv]

@[simp] theorem readDigits_nil (x : Nat) : readDigits d [] x = 0 := rfl

@[simp] theorem readDigits_cons (p : Nat) (ps : List Nat) (x : Nat) :
    readDigits d (p :: ps) x = digit d p x * d ^ ps.length + readDigits d ps x := rfl

@[simp] theorem placeDigits_nil (b x : Nat) : placeDigits d [] b x = x := rfl

@[simp] theorem placeDigits_cons (p : Nat) (ps : List Nat) (b x : Nat) :
    placeDigits d (p :: ps) b x =
      placeDigits d ps b (replaceDigit d p (b / d ^ ps.length % d) x) := rfl

/-- The number that digits spell is below the base to their number. -/
theorem readDigits_lt (h : 0 < d) (ps : List Nat) (x : Nat) :
    readDigits d ps x < d ^ ps.length := by
  induction ps with
  | nil => simp
  | cons p ps ih =>
    have hdigit := Nat.mul_le_mul_right (d ^ ps.length) (digit_lt h p x)
    rw [Nat.succ_mul] at hdigit
    rw [readDigits_cons, List.length_cons, Nat.pow_succ, Nat.mul_comm (d ^ ps.length)]
    omega

end QuditSim
