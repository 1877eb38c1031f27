import QuditSim.Amplitude

/-!
# Tensors

A tensor is a list of extents together with its entries in row-major order, and its type
keeps the two consistent. Operators are square tensors of two extents; `Tensor.mul`,
`Tensor.pow`, `Tensor.kron` and `Tensor.adjoint` are their algebra.
-/

namespace QuditSim

/-- Entries in row-major order over a list of extents. -/
structure Tensor (K : Type) where
  /-- The extents, outermost first. -/
  shape : List Nat
  /-- The entries, the last index running fastest. -/
  entries : Array K
  /-- There is one entry for each choice of indices. -/
  size_entries : entries.size = shape.prod

namespace Tensor

variable {K L : Type}

@[ext] theorem ext {a b : Tensor K} (hs : a.shape = b.shape) (he : a.entries = b.entries) :
    a = b := by
  cases a; cases b; simp_all

/-- The tensor whose entry at a row-major position is given by a function. -/
def ofFn (shape : List Nat) (f : Nat → K) : Tensor K :=
  ⟨shape, Array.ofFn fun i : Fin shape.prod => f i, by simp⟩

/-- The tensor of the given shape with the given entries, if there are as many as it needs. -/
def ofArray? (shape : List Nat) (entries : Array K) : Option (Tensor K) :=
  if h : entries.size = shape.prod then some ⟨shape, entries, h⟩ else none

/-- The vector of the given entries. -/
def vector (entries : Array K) : Tensor K := ⟨[entries.size], entries, by simp⟩

/-- A function of every entry. -/
def map (f : K → L) (t : Tensor K) : Tensor L :=
  ⟨t.shape, t.entries.map f, by rw [Array.size_map, t.size_entries]⟩

@[simp] theorem shape_ofFn (shape : List Nat) (f : Nat → K) : (ofFn shape f).shape = shape := rfl

@[simp] theorem shape_map (f : K → L) (t : Tensor K) : (t.map f).shape = t.shape := rfl

@[simp] theorem shape_vector (entries : Array K) : (vector entries).shape = [entries.size] := rfl

/-- The number of indices an entry has. -/
def rank (t : Tensor K) : Nat := t.shape.length

/-- Whether there are two indices with the same extent. -/
def isSquare (t : Tensor K) : Bool :=
  match t.shape with
  | [rows, columns] => rows == columns
  | _ => false

/-- The extent of the first index; a tensor without indices counts as one row. -/
def rows (t : Tensor K) : Nat := t.shape.headD 1

/-- The extent of the second index, or one if there is none. -/
def columns (t : Tensor K) : Nat := t.shape.getD 1 1

/-- The entry at a row-major position, and zero beyond the last. -/
def get [Zero K] (t : Tensor K) (i : Nat) : K := t.entries.getD i 0

/-- The entry of a matrix in a row and a column. -/
def entry [Zero K] (t : Tensor K) (row column : Nat) : K := t.get (row * t.columns + column)

/-- The matrix whose entry in a row and a column is given by a function. -/
def matrix (rows columns : Nat) (f : Nat → Nat → K) : Tensor K :=
  ofFn [rows, columns] fun i => f (i / columns) (i % columns)

@[simp] theorem shape_matrix (rows columns : Nat) (f : Nat → Nat → K) :
    (matrix rows columns f).shape = [rows, columns] := rfl

@[simp] theorem rows_matrix (rows columns : Nat) (f : Nat → Nat → K) :
    (matrix rows columns f).rows = rows := rfl

@[simp] theorem columns_matrix (rows columns : Nat) (f : Nat → Nat → K) :
    (matrix rows columns f).columns = columns := rfl

@[simp] theorem get_ofFn [Zero K] (shape : List Nat) (f : Nat → K) {i : Nat}
    (h : i < shape.prod) : (ofFn shape f).get i = f i := by
  simp [get, ofFn, h]

/-- A matrix has the entries it was made from. -/
theorem entry_matrix [Zero K] {rows columns row column : Nat} (f : Nat → Nat → K)
    (hr : row < rows) (hc : column < columns) :
    (matrix rows columns f).entry row column = f row column := by
  have hpos : 0 < columns := Nat.lt_of_le_of_lt (Nat.zero_le _) hc
  have hi : row * columns + column < [rows, columns].prod := by
    have : (row + 1) * columns ≤ rows * columns := Nat.mul_le_mul_right _ hr
    simp only [List.prod_cons, List.prod_nil, Nat.mul_one]
    rw [Nat.succ_mul] at this
    omega
  unfold entry
  rw [columns_matrix]
  show (ofFn [rows, columns] _).get _ = _
  rw [get_ofFn _ _ hi]
  have hdiv : (row * columns + column) / columns = row := by
    rw [Nat.mul_comm, Nat.mul_add_div hpos, Nat.div_eq_of_lt hc, Nat.add_zero]
  have hmod : (row * columns + column) % columns = column := by
    rw [Nat.mul_comm, Nat.mul_add_mod, Nat.mod_eq_of_lt hc]
  simp only [hdiv, hmod]

/-- Whether two tensors have the same shape and equal entries. An entry that is not a number
equals nothing, and the two zeros are equal. -/
def same [BEq K] (a b : Tensor K) : Bool :=
  a.shape == b.shape && (a.entries.toList.zip b.entries.toList).all fun (x, y) => x == y

/-- Whether two tensors have the same shape and every pair of entries is equal or stands at
a finite distance of at most the tolerance. -/
def near {R : Type} [Scalar R] [BEq K] (distance : K → K → R) (tolerance : R)
    (a b : Tensor K) : Bool :=
  a.shape == b.shape && (a.entries.toList.zip b.entries.toList).all fun (x, y) =>
    x == y || (Scalar.isFinite (distance x y) && decide (distance x y ≤ tolerance))

section Algebra

variable [Zero K] [One K] [Add K] [Mul K]

/-- The sum of the products of the first `n` values of two sequences. The unit factor makes
a part of an amplitude that is not finite spoil the other part as well. -/
def inner (f g : Nat → K) (n : Nat) : K := 1 * sumTo (fun i => f i * g i) n

/-- The identity matrix. -/
def identity (n : Nat) : Tensor K := matrix n n fun i j => if i = j then 1 else 0

/-- The matrix with the given diagonal. -/
def diagonal (n : Nat) (f : Nat → K) : Tensor K := matrix n n fun i j => if i = j then f i else 0

/-- The transpose of a matrix. -/
def transpose (m : Tensor K) : Tensor K := matrix m.columns m.rows fun i j => m.entry j i

/-- The product of two matrices. -/
def mul (a b : Tensor K) : Tensor K :=
  matrix a.rows b.columns fun i j => inner (a.entry i) (b.entry · j) a.columns

instance : Mul (Tensor K) := ⟨mul⟩

/-- The product of a matrix with a power of a second one, for an exponent that is not zero: the
low binary digits of the exponent come first, and `square` is the power for the next digit. -/
def mulPow (acc square : Tensor K) (n : Nat) : Tensor K :=
  if n ≤ 1 then acc * square
  else mulPow (if n % 2 = 1 then acc * square else acc) (square * square) (n / 2)
termination_by n

/-- The power of a square matrix for an exponent that is not zero, by repeated squaring. No
product with the identity is formed. -/
def powPositive (m : Tensor K) (n : Nat) : Tensor K :=
  if n ≤ 1 then m
  else if n % 2 = 1 then mulPow m (m * m) (n / 2)
  else powPositive (m * m) (n / 2)
termination_by n

/-- The power of a square matrix. The power zero is the identity whatever the entries are, and
the third power is the square times the matrix. -/
def pow (m : Tensor K) (n : Nat) : Tensor K :=
  if n = 0 then identity m.rows else if n = 3 then m * m * m else powPositive m n

/-- The Kronecker product: extents multiply, and the indices of the first factor are the more
significant ones. Missing extents of the factor with fewer indices count as one. -/
def kron (a b : Tensor K) : Tensor K :=
  let rank := max a.rank b.rank
  let left := List.replicate (rank - a.rank) 1 ++ a.shape
  let right := List.replicate (rank - b.rank) 1 ++ b.shape
  ofFn (List.zipWith (· * ·) left right) fun i =>
    let (p, q) := split left right i
    a.get p * b.get q
where
  /-- The positions in the two factors of a position in the product. -/
  split : List Nat → List Nat → Nat → Nat × Nat
    | m :: left, n :: right, i =>
      let inside := left.prod * right.prod
      let outer := i / inside
      let (p, q) := split left right (i % inside)
      (outer / n % m * left.prod + p, outer % n * right.prod + q)
    | _, _, _ => (0, 0)

/-- The Kronecker product of `n + 1` copies of a matrix. -/
def kronPow (m : Tensor K) : Nat → Tensor K
  | 0 => m
  | n + 1 => (kronPow m n).kron m

end Algebra

section Complex

variable {R : Type} [Scalar R]

/-- The conjugate transpose of a matrix. -/
def adjoint (m : Tensor (Amplitude R)) : Tensor (Amplitude R) :=
  matrix m.columns m.rows fun i j => (m.entry j i).conj

/-- A scalar multiple. -/
def scale (x : R) (m : Tensor (Amplitude R)) : Tensor (Amplitude R) :=
  m.map (Amplitude.ofReal x * ·)

/-- The sum of two tensors of one shape. -/
def add (a b : Tensor (Amplitude R)) : Tensor (Amplitude R) :=
  ofFn a.shape fun i => a.get i + b.get i

/-- A tensor is carried into another scalar type entry by entry. -/
instance {S : Type} [Rounding S R] : Rounding (Tensor (Amplitude S)) (Tensor (Amplitude R)) :=
  ⟨map Rounding.round⟩

end Complex

end Tensor

/-- An operator: a tensor of complex entries. -/
abbrev Operator (R : Type) : Type := Tensor (Amplitude R)

end QuditSim
