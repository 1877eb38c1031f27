import Mathlib.Data.List.Nodup
import QuditSim.Proofs.Digits

/-!
# Reading and placing numbers

`placeDigits` writes a number into the digits at some positions, and `readDigits` reads it back. An
index is determined by the number at some positions and by the digits at all others
(`eq_of_readDigits`), so what the two do together is found out digit by digit.

- `readDigits_placeDigits` and `placeDigits_readDigits`: what was placed is read, and placing what
  was read changes nothing.
- `placeDigits_placeDigits` and `placeDigits_comm`: numbers at the same positions replace each
  other, and numbers at different positions do not meet.
- `placeDigits_append`: a number of two parts is placed part by part. -/

namespace QuditSim

variable {d : Nat}

/-! ## Digits of all indices -/

/-- Indices with the same digits are the same. -/
theorem eq_of_all_digits (hd : 2 ≤ d) {x y : Nat} (h : ∀ q, digit d q x = digit d q y) : x = y := by
  have hlt : ∀ z ≤ x + y, z < d ^ (x + y + 1) := by
    intro z hz
    have hpow : x + y + 1 < d ^ (x + y + 1) := Nat.lt_pow_self hd
    omega
  exact eq_of_digits (hlt x (by omega)) (hlt y (by omega)) fun q _ => h q

/-- Two indices have the same digits off some positions. -/
def SameOff (d : Nat) (ps : List Nat) (x y : Nat) : Prop := ∀ q, q ∉ ps → digit d q x = digit d q y

namespace SameOff

variable {ps qs : List Nat} {x y z : Nat}

theorem refl (ps : List Nat) (x : Nat) : SameOff d ps x x := fun _ _ => rfl

theorem symm (h : SameOff d ps x y) : SameOff d ps y x := fun q hq => (h q hq).symm

theorem trans (h : SameOff d ps x y) (h' : SameOff d ps y z) : SameOff d ps x z :=
  fun q hq => (h q hq).trans (h' q hq)

theorem mono (h : SameOff d ps x y) (hsub : ∀ p ∈ ps, p ∈ qs) : SameOff d qs x y :=
  fun q hq => h q fun hp => hq (hsub q hp)

/-- Placing a number changes digits at its positions only. -/
theorem placeDigits (hd : 0 < d) (ps : List Nat) (b x : Nat) :
    SameOff d ps (placeDigits d ps b x) x :=
  fun _ hq => digit_placeDigits_of_not_mem hd hq b x

/-- The number at other positions is the same. -/
theorem readDigits_eq (h : SameOff d ps x y) (hqs : ∀ q ∈ qs, q ∉ ps) :
    readDigits d qs x = readDigits d qs y := by
  induction qs with
  | nil => rfl
  | cons q qs ih =>
    rw [readDigits_cons, readDigits_cons, h q (hqs q List.mem_cons_self),
      ih fun q' hq' => hqs q' (List.mem_cons_of_mem _ hq')]

/-- Where one of two indices is below a power of the base, so is the other one. -/
theorem lt_pow (hd : 2 ≤ d) {n : Nat} (h : SameOff d ps x y) (hps : ∀ p ∈ ps, p < n)
    (hx : x < d ^ n) : y < d ^ n := by
  have hpos : 0 < d := by omega
  rw [lt_pow_iff hpos] at hx ⊢
  apply eq_of_all_digits hd
  intro q
  -- the digits above are not those of the positions, and they are zero in the first index
  rw [← hx, digit_div, digit_div]
  refine (h (n + q) fun hmem => ?_).symm
  have hlt := hps (n + q) hmem
  omega

end SameOff

/-! ## Numbers that are placed and read -/

/-- Positions spell the same number just if they have the same digits. -/
theorem digit_eq_of_readDigits (hd : 0 < d) {ps : List Nat} {x y : Nat}
    (h : readDigits d ps x = readDigits d ps y) : ∀ p ∈ ps, digit d p x = digit d p y := by
  induction ps with
  | nil => exact fun p hp => nomatch hp
  | cons p ps ih =>
    have hy := Nat.mod_eq_of_lt (readDigits_lt hd (p :: ps) y)
    have hx : readDigits d (p :: ps) x = readDigits d (p :: ps) y % d ^ (ps.length + 1) :=
      h.trans hy.symm
    obtain ⟨hfirst, hrest⟩ := (readDigits_cons_eq_iff hd ps p x _).mp hx
    obtain ⟨hfirst', hrest'⟩ := (readDigits_cons_eq_iff hd ps p y _).mp hy.symm
    intro q hq
    rcases List.mem_cons.mp hq with rfl | hmem
    · exact hfirst.trans hfirst'.symm
    · exact ih (hrest.trans hrest'.symm) q hmem

/-- An index is determined by the number at some positions and the digits at the others. -/
theorem eq_of_readDigits (hd : 2 ≤ d) (ps : List Nat) {x y : Nat}
    (hread : readDigits d ps x = readDigits d ps y) (hoff : SameOff d ps x y) : x = y := by
  apply eq_of_all_digits hd
  intro q
  by_cases hq : q ∈ ps
  · exact digit_eq_of_readDigits (by omega) hread q hq
  · exact hoff q hq

/-- A number that was placed is read, as far as there are digits for it. -/
theorem readDigits_placeDigits (hd : 0 < d) {ps : List Nat} (hps : ps.Nodup) (b x : Nat) :
    readDigits d ps (placeDigits d ps b x) = b % d ^ ps.length := by
  induction ps generalizing x with
  | nil => rw [readDigits_nil, List.length_nil, Nat.pow_zero, Nat.mod_one]
  | cons p ps ih =>
    obtain ⟨hp, hrest⟩ := List.nodup_cons.mp hps
    rw [List.length_cons, readDigits_cons_eq_iff hd, placeDigits_cons]
    -- the digits that are placed later leave the first one
    refine ⟨?_, ih hrest _⟩
    rw [digit_placeDigits_of_not_mem hd hp, digit_replaceDigit _ _ (Nat.mod_lt _ hd)]

section Placing

variable (hd : 2 ≤ d) {ps qs : List Nat}

include hd

/-- Placing the number that is there changes nothing. -/
theorem placeDigits_readDigits (hps : ps.Nodup) (x : Nat) :
    placeDigits d ps (readDigits d ps x) x = x := by
  have hpos : 0 < d := by omega
  apply eq_of_readDigits hd ps
  · rw [readDigits_placeDigits hpos hps, Nat.mod_eq_of_lt (readDigits_lt hpos ps x)]
  · exact .placeDigits hpos ps _ x

/-- A number that is placed replaces the one that was placed before. -/
theorem placeDigits_placeDigits (hps : ps.Nodup) (b c x : Nat) :
    placeDigits d ps b (placeDigits d ps c x) = placeDigits d ps b x := by
  have hpos : 0 < d := by omega
  apply eq_of_readDigits hd ps
  · rw [readDigits_placeDigits hpos hps, readDigits_placeDigits hpos hps]
  · have hsame := SameOff.placeDigits hpos ps b (placeDigits d ps c x)
    exact (hsame.trans (.placeDigits hpos ps c x)).trans (SameOff.placeDigits hpos ps b x).symm

/-- Numbers at different positions are placed in any order. -/
theorem placeDigits_comm (hps : ps.Nodup) (hdisjoint : ∀ p ∈ ps, p ∉ qs) (b c x : Nat) :
    placeDigits d ps b (placeDigits d qs c x) = placeDigits d qs c (placeDigits d ps b x) := by
  have hpos : 0 < d := by omega
  apply eq_of_readDigits hd ps
  · rw [readDigits_placeDigits hpos hps,
      (SameOff.placeDigits hpos qs c (placeDigits d ps b x)).readDigits_eq hdisjoint,
      readDigits_placeDigits hpos hps]
  · intro q hq
    rw [digit_placeDigits_of_not_mem hpos hq]
    exact digit_placeDigits_congr hpos c (.inr (digit_placeDigits_of_not_mem hpos hq b x).symm)

omit hd in
/-- The number at the positions of two lists has a part for each. -/
theorem readDigits_append (ps qs : List Nat) (x : Nat) :
    readDigits d (ps ++ qs) x = readDigits d ps x * d ^ qs.length + readDigits d qs x := by
  induction ps with
  | nil => rw [List.nil_append, readDigits_nil, Nat.zero_mul, Nat.zero_add]
  | cons p ps ih =>
    rw [List.cons_append, readDigits_cons, ih, readDigits_cons, List.length_append, Nat.pow_add,
      Nat.add_mul, Nat.mul_assoc, Nat.add_assoc]

omit hd in
/-- What has no digits among the positions is not placed. -/
theorem placeDigits_add_mul (hd : 0 < d) (ps : List Nat) (a b x : Nat) :
    placeDigits d ps (a * d ^ ps.length + b) x = placeDigits d ps b x := by
  induction ps generalizing a x with
  | nil => rfl
  | cons p ps ih =>
    have hpow : 0 < d ^ ps.length := Nat.pow_pos hd
    have hsplit : a * d ^ (p :: ps).length + b = a * d * d ^ ps.length + b := by
      rw [List.length_cons, Nat.pow_succ, Nat.mul_assoc, Nat.mul_comm d]
    have hfirst : (a * d * d ^ ps.length + b) / d ^ ps.length % d = b / d ^ ps.length % d := by
      rw [Nat.mul_comm, Nat.mul_add_div hpow, Nat.mul_comm a, Nat.mul_add_mod]
    rw [hsplit, placeDigits_cons, placeDigits_cons, hfirst, ih]

omit hd in
/-- A number of two parts is placed part by part. -/
theorem placeDigits_append (hd : 0 < d) (ps qs : List Nat) (b : Nat) {c : Nat}
    (hc : c < d ^ qs.length) (x : Nat) :
    placeDigits d (ps ++ qs) (b * d ^ qs.length + c) x =
      placeDigits d qs c (placeDigits d ps b x) := by
  have hpow : 0 < d ^ qs.length := Nat.pow_pos hd
  induction ps generalizing x with
  | nil => exact placeDigits_add_mul hd qs b c x
  | cons p ps ih =>
    have hfirst : (b * d ^ qs.length + c) / d ^ (ps ++ qs).length % d = b / d ^ ps.length % d := by
      rw [List.length_append, Nat.pow_add, Nat.mul_comm (d ^ ps.length), ← Nat.div_div_eq_div_mul,
        Nat.mul_comm b, Nat.mul_add_div hpow, Nat.div_eq_of_lt hc, Nat.add_zero]
    rw [List.cons_append, placeDigits_cons, placeDigits_cons, hfirst, ih]

end Placing

end QuditSim
