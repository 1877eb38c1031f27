import QuditSim.State.Apply

/-!
# Shapes of powers

Powers and Kronecker powers of a square matrix are square matrices. The first keep the number of
rows, the second raise it to the power.
-/

namespace QuditSim

namespace Tensor

theorem rows_of_shape {K : Type} {t : Tensor K} {m n : Nat} (h : t.shape = [m, n]) : t.rows = m := by
  simp [rows, h]

theorem columns_of_shape {K : Type} {t : Tensor K} {m n : Nat} (h : t.shape = [m, n]) :
    t.columns = n := by
  simp [columns, h]

variable {K : Type} [Zero K] [Mul K] {m square acc : Tensor K} {n : Nat}

section Powers

variable [One K] [Add K]

/-- The product of square matrices of `n` rows has `n` rows. -/
theorem shape_mul {a b : Tensor K} (ha : a.shape = [n, n]) (hb : b.shape = [n, n]) :
    (a * b).shape = [n, n] := by
  show [a.rows, b.columns] = [n, n]
  rw [rows_of_shape ha, columns_of_shape hb]

theorem shape_mulPow (hacc : acc.shape = [n, n]) (hsquare : square.shape = [n, n]) (e : Nat) :
    (mulPow acc square e).shape = [n, n] := by
  induction e using Nat.strongRecOn generalizing acc square with
  | ind e ih =>
    unfold mulPow
    split
    · exact shape_mul hacc hsquare
    · next he =>
      -- the square is squared, and the product takes it up or not
      refine ih (e / 2) (by omega) ?_ (shape_mul hsquare hsquare)
      split
      · exact shape_mul hacc hsquare
      · exact hacc

theorem shape_powPositive (hm : m.shape = [n, n]) (e : Nat) : (powPositive m e).shape = [n, n] := by
  induction e using Nat.strongRecOn generalizing m with
  | ind e ih =>
    unfold powPositive
    split
    · exact hm
    · next he =>
      split
      · exact shape_mulPow hm (shape_mul hm hm) _
      · exact ih (e / 2) (by omega) (shape_mul hm hm)

/-- A power of a square matrix has as many rows. -/
theorem shape_pow (hm : m.shape = [n, n]) (e : Nat) : (m.pow e).shape = [n, n] := by
  unfold pow
  split
  · simp [identity, rows, hm]
  · split
    · exact shape_mul (shape_mul hm hm) hm
    · exact shape_powPositive hm e

/-- A power is formed just if a word of 64 bits holds the exponent. -/
theorem power_nat (hm : m.shape = [n, n]) (e : Nat) :
    m.power (.nat e) = if e < 2 ^ 63 then .ok (m.pow e) else .error .badExponent := by
  have hexponent : exponentOf (.nat e) = if e < 2 ^ 63 then .ok e else .error .badExponent := by
    have hnonneg : (Number.int e).below 0 = false := by
      rw [Number.below_int]
      exact decide_eq_false (by omega)
    show (if (Number.int e).below 0 then .error (.negativeExponent (.nat e)) else
      if (2 : Int) ^ 63 ≤ (e : Int) then .error .badExponent else .ok (e : Int).toNat :
        Except StateFault Nat) = _
    rw [hnonneg, if_neg Bool.false_ne_true, Int.toNat_natCast]
    by_cases he : e < 2 ^ 63
    · rw [if_pos he, if_neg (by omega)]
    · rw [if_neg he, if_pos (by omega)]
  unfold power
  rw [hexponent]
  split <;> simp [isSquare, hm, bind, Except.bind, pure, Except.pure]

end Powers

/-- The rows of a Kronecker product are the pairs of rows. -/
theorem shape_kron {a b : Tensor K} {k l : Nat} (ha : a.shape = [k, k]) (hb : b.shape = [l, l]) :
    (a.kron b).shape = [k * l, k * l] := by
  simp [kron, rank, ha, hb]

/-- The Kronecker product of `e + 1` copies has as many rows as the power says. -/
theorem shape_kronPow (hm : m.shape = [n, n]) (e : Nat) :
    (m.kronPow e).shape = [n ^ (e + 1), n ^ (e + 1)] := by
  induction e with
  | zero => simpa [kronPow] using hm
  | succ e ih => simpa [kronPow, Nat.pow_succ] using shape_kron ih hm

/-- A Kronecker power of at least one factor is formed. -/
theorem tensorPower_eq_ok {e : Nat} (he : e ≠ 0) :
    m.tensorPower (.nat e) = .ok (m.kronPow (e - 1)) := by
  have hfactors : factorsOf (.nat e) = .ok e := by
    have hpos : ¬ (e : Int) < 1 := by omega
    simp [factorsOf, Argument.nat, Number.below, hpos]
  unfold tensorPower
  rw [hfactors]
  rfl

end Tensor

end QuditSim
