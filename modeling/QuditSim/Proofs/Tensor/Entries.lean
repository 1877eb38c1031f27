import Mathlib.Algebra.Group.Basic
import QuditSim.Proofs.Tensor.Shape

/-!
# Entries of products and powers

What the algebra of square tensors does to their entries, and to what is made of them.

- `Tensor.entry_map`, `Tensor.entry_adjoint`, `Tensor.entry_add`, `Tensor.entry_mul`,
  `Tensor.entry_identity` and `Tensor.entry_kron` are the entries.
- `Tensor.map_pow`: what carries products over to a monoid carries powers over to it, in whatever
  order the powers are formed.
-/

namespace QuditSim

namespace Tensor

variable {K : Type} {m square acc : Tensor K} {n : Nat}

/-- Square matrices of the same entries are the same. -/
theorem ext_entry [Zero K] {a b : Tensor K} (ha : a.shape = [n, n]) (hb : b.shape = [n, n])
    (h : ∀ i < n, ∀ k < n, a.entry i k = b.entry i k) : a = b := by
  have hsize : a.entries.size = n * n := by simp [a.size_entries, ha]
  have hsize' : b.entries.size = n * n := by simp [b.size_entries, hb]
  apply ext (ha.trans hb.symm)
  apply Array.ext (hsize.trans hsize'.symm)
  intro place hplace hplace'
  rw [hsize] at hplace
  -- the place of an entry is read as its row and its column
  have hpos : 0 < n := Nat.pos_of_mul_pos_left (Nat.lt_of_le_of_lt (Nat.zero_le _) hplace)
  have hentry := h (place / n) (Nat.div_lt_of_lt_mul hplace) (place % n) (Nat.mod_lt _ hpos)
  have hcolumns : a.columns = n := by simp [columns, ha]
  have hcolumns' : b.columns = n := by simp [columns, hb]
  unfold entry get at hentry
  rw [hcolumns, hcolumns', Nat.mul_comm, Nat.div_add_mod] at hentry
  simpa [Array.getD_eq_getD_getElem?, hsize, hsize', hplace] using hentry

/-- The places of the entries of a square matrix. -/
theorem place_lt {i k : Nat} (hi : i < n) (hk : k < n) : i * n + k < [n, n].prod := by
  have hle : (i + 1) * n ≤ n * n := Nat.mul_le_mul_right n hi
  rw [Nat.succ_mul] at hle
  simp only [List.prod_cons, List.prod_nil, Nat.mul_one]
  omega

/-- An entry of a function of all entries. -/
theorem entry_map {L : Type} [Zero K] [Zero L] (f : K → L) {a : Tensor K} (ha : a.shape = [n, n])
    {i k : Nat} (hi : i < n) (hk : k < n) : (a.map f).entry i k = f (a.entry i k) := by
  have hplace : i * n + k < a.entries.size := by
    rw [a.size_entries, ha]
    exact place_lt hi hk
  have hcolumns : a.columns = n := columns_of_shape ha
  have hcolumns' : (a.map f).columns = n := hcolumns
  unfold entry get
  rw [hcolumns, hcolumns']
  simp [map, hplace]

section Complex

variable {R : Type} [Scalar R] {a b : Operator R}

theorem shape_adjoint (ha : a.shape = [n, n]) : a.adjoint.shape = [n, n] := by
  simp [adjoint, columns, rows, ha]

/-- An entry of the adjoint of a square matrix. -/
theorem entry_adjoint (ha : a.shape = [n, n]) {i k : Nat} (hi : i < n) (hk : k < n) :
    a.adjoint.entry i k = (a.entry k i).conj := by
  unfold adjoint
  rw [columns_of_shape ha, rows_of_shape ha, entry_matrix _ hi hk]

/-- An entry of a multiple of a square matrix. -/
theorem entry_scale (x : R) (ha : a.shape = [n, n]) {i k : Nat} (hi : i < n) (hk : k < n) :
    (a.scale x).entry i k = Amplitude.ofReal x * a.entry i k :=
  entry_map _ ha hi hk

/-- An entry of a sum of square matrices. -/
theorem entry_add (ha : a.shape = [n, n]) (hb : b.shape = [n, n]) {i k : Nat} (hi : i < n)
    (hk : k < n) : (a.add b).entry i k = a.entry i k + b.entry i k := by
  have hplace : i * n + k < a.shape.prod := by
    rw [ha]
    exact place_lt hi hk
  have hsum : (a.add b).shape = [n, n] := ha
  unfold entry
  rw [columns_of_shape ha, columns_of_shape hb, columns_of_shape hsum]
  exact get_ofFn _ _ hplace

end Complex

section Powers

variable [Zero K] [Mul K] [One K] [Add K]

/-- An entry of a product of square matrices. -/
theorem entry_mul {a b : Tensor K} (ha : a.shape = [n, n]) (hb : b.shape = [n, n]) {i k : Nat}
    (hi : i < n) (hk : k < n) :
    (a * b).entry i k = inner (a.entry i) (b.entry · k) n := by
  have hrows : a.rows = n := by simp [rows, ha]
  have hcolumns : a.columns = n := by simp [columns, ha]
  have hcolumns' : b.columns = n := by simp [columns, hb]
  show (matrix a.rows b.columns fun i j => inner (a.entry i) (b.entry · j) a.columns).entry i k = _
  rw [hrows, hcolumns, hcolumns', entry_matrix _ hi hk]

omit [Mul K] [Add K] in
theorem entry_identity {i k : Nat} (hi : i < n) (hk : k < n) :
    (identity n : Tensor K).entry i k = if i = k then 1 else 0 :=
  entry_matrix _ hi hk

variable {M : Type*} [Monoid M] {f : Tensor K → M}
  (hmul : ∀ a b : Tensor K, a.shape = [n, n] → b.shape = [n, n] → f (a * b) = f a * f b)

include hmul

theorem map_mulPow (hacc : acc.shape = [n, n]) (hsquare : square.shape = [n, n]) {e : Nat}
    (he : e ≠ 0) : f (mulPow acc square e) = f acc * f square ^ e := by
  induction e using Nat.strongRecOn generalizing acc square with
  | ind e ih =>
    unfold mulPow
    split
    · next hone =>
      obtain rfl : e = 1 := by omega
      rw [hmul _ _ hacc hsquare, pow_one]
    · next hmany =>
      have hhalf : e / 2 ≠ 0 := by omega
      have hlt : e / 2 < e := by omega
      have hsquare' := shape_mul hsquare hsquare
      -- the exponent is twice its half, and one more if it is odd
      split
      · next hodd =>
        have hexponent : e = 1 + 2 * (e / 2) := by omega
        rw [ih _ hlt (shape_mul hacc hsquare) hsquare' hhalf, hmul _ _ hacc hsquare,
          hmul _ _ hsquare hsquare, mul_assoc, ← pow_two, ← pow_mul, ← pow_succ', Nat.add_comm,
          ← hexponent]
      · next heven =>
        have hexponent : e = 2 * (e / 2) := by omega
        rw [ih _ hlt hacc hsquare' hhalf, hmul _ _ hsquare hsquare, ← pow_two, ← pow_mul,
          ← hexponent]

theorem map_powPositive (hm : m.shape = [n, n]) {e : Nat} (he : e ≠ 0) :
    f (powPositive m e) = f m ^ e := by
  induction e using Nat.strongRecOn generalizing m with
  | ind e ih =>
    unfold powPositive
    split
    · next hone =>
      obtain rfl : e = 1 := by omega
      rw [pow_one]
    · next hmany =>
      have hhalf : e / 2 ≠ 0 := by omega
      have hsquare := shape_mul hm hm
      split
      · next hodd =>
        have hexponent : e = 1 + 2 * (e / 2) := by omega
        rw [map_mulPow hmul hm hsquare hhalf, hmul _ _ hm hm, ← pow_two, ← pow_mul, ← pow_succ',
          Nat.add_comm, ← hexponent]
      · next heven =>
        have hexponent : e = 2 * (e / 2) := by omega
        rw [ih _ (by omega) hsquare hhalf, hmul _ _ hm hm, ← pow_two, ← pow_mul, ← hexponent]

/-- What carries the products and the identity of square matrices over to a monoid carries their
powers over to it. -/
theorem map_pow (hone : f (identity n) = 1) (hm : m.shape = [n, n]) (e : Nat) :
    f (m.pow e) = f m ^ e := by
  have hrows : m.rows = n := by simp [rows, hm]
  unfold pow
  split
  · next hzero => rw [hrows, hone, hzero, pow_zero]
  · split
    · next hthree =>
      rw [hmul _ _ (shape_mul hm hm) hm, hmul _ _ hm hm, ← pow_two, ← pow_succ, hthree]
    · next hzero _ => exact map_powPositive hmul hm hzero

end Powers

/-- An entry of a Kronecker product of square matrices: the indices of the first factor are the more
significant ones. -/
theorem entry_kron [Zero K] [Mul K] {a b : Tensor K} {k l : Nat} (ha : a.shape = [k, k])
    (hb : b.shape = [l, l]) {i j : Nat} (hi : i < k * l) (hj : j < k * l) :
    (a.kron b).entry i j = a.entry (i / l) (j / l) * b.entry (i % l) (j % l) := by
  have hcolumns : (a.kron b).columns = k * l := by simp [columns, shape_kron ha hb]
  have hfirst (x : Nat) (hx : x < k * l) : x / l % k = x / l :=
    Nat.mod_eq_of_lt (Nat.div_lt_of_lt_mul (by rwa [Nat.mul_comm]))
  have hpos : 0 < k * l := Nat.lt_of_le_of_lt (Nat.zero_le _) hi
  have hdiv : (i * (k * l) + j) / (k * l) = i := by
    rw [Nat.mul_comm, Nat.mul_add_div hpos, Nat.div_eq_of_lt hj, Nat.add_zero]
  have hmod : (i * (k * l) + j) % (k * l) = j := by
    rw [Nat.mul_comm, Nat.mul_add_mod, Nat.mod_eq_of_lt hj]
  have hbound : i * (k * l) + j < [k * l, k * l].prod := place_lt hi hj
  unfold entry
  rw [hcolumns]
  unfold kron
  simp only [rank, ha, hb, List.length_cons, List.length_nil, Nat.max_self, Nat.sub_self,
    List.replicate_zero, List.nil_append, List.zipWith_cons_cons, List.zipWith_nil_right]
  rw [get_ofFn _ _ hbound]
  simp only [kron.split, List.prod_cons, List.prod_nil, Nat.mul_one, Nat.div_one, hdiv, hmod,
    hfirst i hi, hfirst j hj, Nat.add_zero]
  simp [columns, ha, hb]

end Tensor

end QuditSim
