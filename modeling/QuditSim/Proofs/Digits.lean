import QuditSim.Digits

/-!
# Indices from their digits

An index of a register of `n` qudits is determined by its `n` digits. `ofDigits` is the index with
given digits, and the operations on digits are determined by what they do to each digit.

- `digit_ofDigits` and `eq_of_digits`: digits and indices correspond.
- `digit_insertDigit_of_lt` and `digit_insertDigit_of_gt`: an inserted digit leaves those below it
  where they are and moves those above it up.
- `digit_replaceDigit_of_ne` and `digit_placeDigits_of_not_mem`: replacing digits leaves the others.
- `insertDigit_lt`, `removeDigit_lt` and `placeDigits_lt`: how large the indices become.
-/

namespace QuditSim

/-- The index of a register of `n` qudits whose digits are given by a function. -/
def ofDigits (d : Nat) : Nat → (Nat → Nat) → Nat
  | 0, _ => 0
  | n + 1, g => ofDigits d n g + g n * d ^ n

variable {d : Nat}

/-! ## Digits of parts -/

/-- The digits of the part of an index below a position. -/
theorem digit_mod {p q : Nat} (h : q < p) (x : Nat) : digit d q (x % d ^ p) = digit d q x := by
  obtain ⟨r, rfl⟩ : ∃ r, p = q + (r + 1) := ⟨p - q - 1, by omega⟩
  unfold digit
  rw [Nat.pow_add, Nat.mod_mul_right_div_self, Nat.pow_succ, Nat.mod_mul_left_mod]

/-- The digits of the part of an index from a position on. -/
theorem digit_div (p r x : Nat) : digit d r (x / d ^ p) = digit d (p + r) x := by
  unfold digit
  rw [Nat.div_div_eq_div_mul, ← Nat.pow_add]

/-- An index is below a power of the base just if nothing is left above that position. -/
theorem lt_pow_iff (hd : 0 < d) {m x : Nat} : x < d ^ m ↔ x / d ^ m = 0 := by
  rw [Nat.div_eq_zero_iff]
  have hpos : 0 < d ^ m := Nat.pow_pos hd
  omega

/-- The part of an index above a position, from the part above a lower one. -/
theorem div_pow_add (p r x : Nat) : x / d ^ (p + r) = x / d ^ p / d ^ r := by
  rw [Nat.pow_add, Nat.div_div_eq_div_mul]

/-! ## Digits determine an index -/

theorem ofDigits_lt {n : Nat} {g : Nat → Nat} (hg : ∀ q < n, g q < d) : ofDigits d n g < d ^ n := by
  induction n with
  | zero => exact Nat.one_pos
  | succ n ih =>
    -- the highest digit stands for at most one multiple less than the base
    have hlow := ih fun q hq => hg q (Nat.lt_succ_of_lt hq)
    have hhigh : (g n + 1) * d ^ n ≤ d * d ^ n := Nat.mul_le_mul_right _ (hg n (Nat.lt_succ_self n))
    rw [Nat.succ_mul] at hhigh
    rw [ofDigits, Nat.pow_succ, Nat.mul_comm (d ^ n)]
    omega

/-- An index has the digits that it was made from. -/
theorem digit_ofDigits {n q : Nat} {g : Nat → Nat} (hg : ∀ q < n, g q < d) (hq : q < n) :
    digit d q (ofDigits d n g) = g q := by
  induction n with
  | zero => cases hq
  | succ n ih =>
    have hlow : ofDigits d n g < d ^ n := ofDigits_lt fun q hq => hg q (Nat.lt_succ_of_lt hq)
    -- a lower digit is read off the remainder, and the highest one off the quotient
    by_cases hlt : q < n
    · rw [← ih (fun q hq => hg q (Nat.lt_succ_of_lt hq)) hlt, ← digit_mod hlt, ofDigits,
        Nat.add_mul_mod_self_right, digit_mod hlt]
    · obtain rfl : q = n := by omega
      have hpos : 0 < d ^ q := Nat.lt_of_le_of_lt (Nat.zero_le _) hlow
      unfold digit
      rw [ofDigits, Nat.add_mul_div_right _ _ hpos, Nat.div_eq_of_lt hlow, Nat.zero_add,
        Nat.mod_eq_of_lt (hg q hq)]

/-- Indices of a register with the same digits are the same. -/
theorem eq_of_digits {n x y : Nat} (hx : x < d ^ n) (hy : y < d ^ n)
    (h : ∀ q < n, digit d q x = digit d q y) : x = y := by
  induction n generalizing x y with
  | zero =>
    rw [Nat.pow_zero] at hx hy
    omega
  | succ n ih =>
    -- the lowest digit is split off, and the others are those of the quotients
    have hsplit : ∀ z, z < d ^ (n + 1) → z / d < d ^ n := fun z hz =>
      Nat.div_lt_of_lt_mul (by rwa [Nat.pow_succ, Nat.mul_comm] at hz)
    have hquot : x / d = y / d := by
      refine ih (hsplit x hx) (hsplit y hy) fun q hq => ?_
      have hdigit := h (1 + q) (by omega)
      rwa [← digit_div, ← digit_div, Nat.pow_one] at hdigit
    have hrem : x % d = y % d := by
      have hdigit := h 0 (Nat.succ_pos n)
      unfold digit at hdigit
      rwa [Nat.pow_zero, Nat.div_one, Nat.div_one] at hdigit
    rw [← Nat.div_add_mod x d, ← Nat.div_add_mod y d, hquot, hrem]

/-! ## Inserted and removed digits -/

/-- The part of an index above the inserted digit. -/
theorem insertDigit_div_succ (p y : Nat) {v : Nat} (hv : v < d) :
    insertDigit d p v y / d ^ (p + 1) = y / d ^ p := by
  have hd : 0 < d := Nat.lt_of_le_of_lt (Nat.zero_le _) hv
  rw [div_pow_succ, insertDigit_div hd, Nat.mul_comm, Nat.mul_add_div hd, Nat.div_eq_of_lt hv,
    Nat.add_zero]

/-- Digits below an inserted one stay. -/
theorem digit_insertDigit_of_lt {p q : Nat} (h : q < p) (v y : Nat) :
    digit d q (insertDigit d p v y) = digit d q y := by
  rw [← digit_mod h, insertDigit_mod, digit_mod h]

/-- Digits above an inserted one move up. -/
theorem digit_insertDigit_of_gt {p q : Nat} (h : p < q) {v : Nat} (hv : v < d) (y : Nat) :
    digit d q (insertDigit d p v y) = digit d (q - 1) y := by
  obtain ⟨r, rfl⟩ : ∃ r, q = p + 1 + r := ⟨q - (p + 1), by omega⟩
  rw [← digit_div, insertDigit_div_succ p y hv, digit_div]
  congr 1
  omega

/-- Digits below a removed one stay. -/
theorem digit_removeDigit_of_lt {p q : Nat} (h : q < p) (x : Nat) :
    digit d q (removeDigit d p x) = digit d q x := by
  rw [← digit_mod h, removeDigit_mod, digit_mod h]

/-- Digits above a removed one move down. -/
theorem digit_removeDigit_of_le (hd : 0 < d) {p q : Nat} (h : p ≤ q) (x : Nat) :
    digit d q (removeDigit d p x) = digit d (q + 1) x := by
  obtain ⟨r, rfl⟩ : ∃ r, q = p + r := ⟨q - p, by omega⟩
  rw [← digit_div, removeDigit_div hd, digit_div]
  congr 1
  omega

/-- An index has one more digit after one was inserted. -/
theorem insertDigit_lt {m p v y : Nat} (hp : p ≤ m) (hv : v < d) (hy : y < d ^ m) :
    insertDigit d p v y < d ^ (m + 1) := by
  have hd : 0 < d := Nat.lt_of_le_of_lt (Nat.zero_le _) hv
  obtain ⟨r, rfl⟩ : ∃ r, m = p + r := ⟨m - p, by omega⟩
  rw [lt_pow_iff hd] at hy ⊢
  rw [show p + r + 1 = p + 1 + r by omega, div_pow_add, insertDigit_div_succ p y hv, ← div_pow_add,
    hy]

/-- An index has one digit fewer after one was removed. -/
theorem removeDigit_lt (hd : 0 < d) {m p x : Nat} (hp : p ≤ m) (hx : x < d ^ (m + 1)) :
    removeDigit d p x < d ^ m := by
  obtain ⟨r, rfl⟩ : ∃ r, m = p + r := ⟨m - p, by omega⟩
  rw [lt_pow_iff hd] at hx ⊢
  rw [div_pow_add, removeDigit_div hd, ← div_pow_add, show p + 1 + r = p + r + 1 by omega, hx]

/-! ## Replaced digits -/

/-- Replacing a digit leaves the others. -/
theorem digit_replaceDigit_of_ne {p q v : Nat} (h : q ≠ p) (hv : v < d) (x : Nat) :
    digit d q (replaceDigit d p v x) = digit d q x := by
  have hd : 0 < d := Nat.lt_of_le_of_lt (Nat.zero_le _) hv
  rw [replaceDigit_eq_insertDigit hd]
  rcases Nat.lt_or_gt_of_ne h with hlt | hgt
  · rw [digit_insertDigit_of_lt hlt, digit_removeDigit_of_lt hlt]
  · rw [digit_insertDigit_of_gt hgt hv, digit_removeDigit_of_le hd (by omega)]
    congr 1
    omega

theorem replaceDigit_lt {m p v x : Nat} (hp : p < m) (hv : v < d) (hx : x < d ^ m) :
    replaceDigit d p v x < d ^ m := by
  have hd : 0 < d := Nat.lt_of_le_of_lt (Nat.zero_le _) hv
  obtain ⟨m, rfl⟩ : ∃ r, m = r + 1 := ⟨m - 1, by omega⟩
  have hle : p ≤ m := Nat.le_of_lt_succ hp
  rw [replaceDigit_eq_insertDigit hd]
  exact insertDigit_lt hle hv (removeDigit_lt hd hle hx)

/-- Placing digits at positions leaves the others. -/
theorem digit_placeDigits_of_not_mem (hd : 0 < d) {ps : List Nat} {q : Nat} (h : q ∉ ps)
    (b x : Nat) : digit d q (placeDigits d ps b x) = digit d q x := by
  induction ps generalizing x with
  | nil => rfl
  | cons p ps ih =>
    obtain ⟨hne, hrest⟩ := List.ne_and_not_mem_of_not_mem_cons h
    rw [placeDigits_cons, ih hrest, digit_replaceDigit_of_ne hne (Nat.mod_lt _ hd)]

theorem placeDigits_lt (hd : 0 < d) {m x : Nat} {ps : List Nat} (hps : ∀ p ∈ ps, p < m)
    (hx : x < d ^ m) (b : Nat) : placeDigits d ps b x < d ^ m := by
  induction ps generalizing x with
  | nil => exact hx
  | cons p ps ih =>
    rw [placeDigits_cons]
    refine ih (fun p' hp' => hps p' (List.mem_cons_of_mem _ hp')) ?_
    exact replaceDigit_lt (hps p List.mem_cons_self) (Nat.mod_lt _ hd) hx

/-- The digits that are placed do not depend on those that were there. -/
theorem digit_placeDigits_congr (hd : 0 < d) {ps : List Nat} {q : Nat} (b : Nat) {x y : Nat}
    (h : q ∈ ps ∨ digit d q x = digit d q y) :
    digit d q (placeDigits d ps b x) = digit d q (placeDigits d ps b y) := by
  induction ps generalizing x y with
  | nil => exact h.resolve_left List.not_mem_nil
  | cons p ps ih =>
    rw [placeDigits_cons, placeDigits_cons]
    have hv : b / d ^ ps.length % d < d := Nat.mod_lt _ hd
    refine ih ?_
    -- a digit that is placed is the same in both indices from there on
    by_cases heq : q = p
    · subst heq
      exact .inr (by rw [digit_replaceDigit q x hv, digit_replaceDigit q y hv])
    · rcases h with hmem | hsame
      · exact .inl ((List.mem_cons.mp hmem).resolve_left heq)
      · right
        rw [digit_replaceDigit_of_ne heq hv, digit_replaceDigit_of_ne heq hv, hsame]

/-! ## Spelled numbers -/

/-- Positions spell a number just if the first one has its digit and the others spell the rest. -/
theorem readDigits_cons_eq_iff (hd : 0 < d) (ps : List Nat) (p x j : Nat) :
    readDigits d (p :: ps) x = j % d ^ (ps.length + 1) ↔
      digit d p x = j / d ^ ps.length % d ∧ readDigits d ps x = j % d ^ ps.length := by
  have hlow := readDigits_lt hd ps x
  have hpos : 0 < d ^ ps.length := Nat.pow_pos hd
  rw [readDigits_cons, Nat.pow_succ, Nat.mod_mul, Nat.mul_comm (digit d p x)]
  constructor
  · intro h
    -- the rest is the remainder of both sides, and the first digit is the quotient
    have hmod := congrArg (· % d ^ ps.length) h
    have hdiv := congrArg (· / d ^ ps.length) h
    rw [Nat.mul_add_mod, Nat.mod_eq_of_lt hlow, Nat.add_mul_mod_self_left, Nat.mod_mod] at hmod
    rw [Nat.mul_add_div hpos, Nat.div_eq_of_lt hlow, Nat.add_mul_div_left _ _ hpos,
      Nat.div_eq_of_lt (Nat.mod_lt _ hpos), Nat.add_zero, Nat.zero_add] at hdiv
    exact ⟨hdiv, hmod⟩
  · rintro ⟨hdigit, hrest⟩
    rw [hdigit, hrest, Nat.add_comm]

end QuditSim
