import QuditSim.Circuit.Build
import QuditSim.Proofs.Fallible

/-!
# What the checks of a call establish

Each check that `Circuit.plan` makes succeeds just if a plain condition holds. The conditions are
stated on the lists of indices themselves (`InRange`, `List.Nodup`, membership), and on the shape
of an operator.

- `Circuit.checkQuantum_eq_ok` and `Circuit.checkClassical_eq_ok` collect the checks of a step.
- `Circuit.checkOperand_eq_ok` says which operators are accepted.
-/

namespace QuditSim

open Fallible

/-- An index of one of `n` items. -/
def InRange (n : Nat) (i : Int) : Prop := 0 ≤ i ∧ i < n

instance (n : Nat) (i : Int) : Decidable (InRange n i) := by
  unfold InRange
  infer_instance

/-- The place that an index in range names is below the bound. -/
theorem InRange.toNat_lt {n : Nat} {i : Int} (h : InRange n i) : i.toNat < n := by
  obtain ⟨h0, hn⟩ := h
  omega

/-- An index in range is the place that it names. -/
theorem InRange.toNat_eq {n : Nat} {i : Int} (h : InRange n i) : (i.toNat : Int) = i :=
  Int.toNat_of_nonneg h.1

/-- The place of an index that a list does not have is not in the list. -/
theorem InRange.toNat_not_mem {n : Nat} {i : Int} (h : InRange n i) {list : List Int}
    (hi : i ∉ list) : (i.toNat : Int) ∉ list := by
  rwa [h.toNat_eq]

/-- A list of different qudits, at least one, for an operator to act on. -/
structure TargetList (n : Nat) (targets : List Int) : Prop where
  /-- There is a target. -/
  ne_nil : targets ≠ []
  /-- No target is named twice. -/
  nodup : targets.Nodup
  /-- The targets are there. -/
  inRange : ∀ q ∈ targets, InRange n q

/-- A tensor is a square matrix of `n` rows just if its shape says so. -/
theorem Tensor.isSquare_and_rows_iff {K : Type} (t : Tensor K) (n : Nat) :
    t.isSquare = true ∧ t.rows = n ↔ t.shape = [n, n] := by
  unfold Tensor.isSquare Tensor.rows
  -- only a shape of two extents can be square
  match h : t.shape with
  | [] => simp
  | [a] => simp
  | [a, b] =>
    simp only [beq_iff_eq, List.headD_cons, List.cons.injEq, and_true]
    constructor
    · rintro ⟨rfl, rfl⟩
      exact ⟨rfl, rfl⟩
    · rintro ⟨rfl, rfl⟩
      exact ⟨rfl, rfl⟩
  | a :: b :: c :: rest => simp

namespace Circuit

variable {S : Type} {c : Circuit S}

theorem readIndices_eq_ok {x : Except IndexFault (List Int)} {indices : List Int} :
    readIndices x = .ok indices ↔ x = .ok indices :=
  mapError_eq_ok

theorem checkNonempty_eq_ok {role : Role} {indices : List Int} :
    checkNonempty role indices = .ok () ↔ indices ≠ [] :=
  refuse_eq_ok

theorem outside_eq_false_iff {n : Nat} {i : Int} : outside n i = false ↔ InRange n i := by
  simp [outside, InRange]

theorem checkQudits_eq_ok {role : Role} {indices : List Int} :
    c.checkQudits role indices = .ok () ↔ ∀ q ∈ indices, InRange c.qudits q := by
  simp only [← outside_eq_false_iff]
  apply search_eq_ok
  · intro q hq
    simp [checkQudits, hq]
  · intro hq
    simp [checkQudits, hq]

theorem checkDits_eq_ok {indices : List Int} :
    c.checkDits indices = .ok () ↔ ∀ i ∈ indices, InRange c.dits i := by
  simp only [← outside_eq_false_iff]
  apply search_eq_ok
  · intro i hi
    simp [checkDits, hi]
  · intro hi
    simp [checkDits, hi]

theorem checkLive_eq_ok {indices : List Int} :
    c.checkLive indices = .ok () ↔ ∀ q ∈ indices, q ∉ c.measured := by
  have hlive : ∀ q, q ∉ c.measured ↔ c.isMeasured q = false := by simp [isMeasured]
  simp only [hlive]
  apply search_eq_ok
  · intro q hq
    simp [checkLive, hq]
  · intro hq
    simp [checkLive, hq]

theorem checkDistinct_eq_ok {role : Role} {indices : List Int} :
    checkDistinct role indices = .ok () ↔ indices.Nodup :=
  require_eq_ok

theorem checkDisjoint_eq_ok {controls targets : List Int} :
    checkDisjoint controls targets = .ok () ↔ ∀ q ∈ controls, q ∉ targets := by
  unfold checkDisjoint
  rw [refuse_eq_ok]
  simp

/-- A step over qudits passes its checks just if controls and targets are lists of different live
qudits that share none. -/
theorem checkQuantum_eq_ok {controls targets : List Int} :
    c.checkQuantum controls targets = .ok () ↔
      (∀ q ∈ controls, InRange c.qudits q) ∧ (∀ q ∈ targets, InRange c.qudits q) ∧
        (∀ q ∈ controls ++ targets, q ∉ c.measured) ∧ controls.Nodup ∧ targets.Nodup ∧
        ∀ q ∈ controls, q ∉ targets := by
  unfold checkQuantum
  simp only [bind_eq_ok, exists_unit, checkQudits_eq_ok, checkLive_eq_ok, checkDistinct_eq_ok,
    checkDisjoint_eq_ok]

/-- A step under control of dits passes its checks just if the dits are there, the targets are
live qudits, and each list names its items once. -/
theorem checkClassical_eq_ok {dits targets : List Int} :
    c.checkClassical dits targets = .ok () ↔
      (∀ i ∈ dits, InRange c.dits i) ∧ (∀ q ∈ targets, InRange c.qudits q) ∧
        (∀ q ∈ targets, q ∉ c.measured) ∧ dits.Nodup ∧ targets.Nodup := by
  unfold checkClassical
  simp only [bind_eq_ok, exists_unit, checkQudits_eq_ok, checkDits_eq_ok, checkLive_eq_ok,
    checkDistinct_eq_ok]

end Circuit

namespace OperandTable

variable {S : Type}

/-- An operator gets the key that is computed from it, unless another operator has it. -/
theorem keyFor_eq_ok [Scalar S] {table : OperandTable S} {m : Operator S} {key : Int} :
    table.keyFor m = .ok key ↔
      key = table.keyOf m ∧ ∀ known, table.get? key = some known → known.same m = true := by
  unfold keyFor
  dsimp only
  -- the key is free, or an operator has it already
  cases h : table.get? (table.keyOf m) with
  | none =>
    simp only [Except.ok.injEq]
    constructor
    · rintro rfl
      exact ⟨rfl, by simp [h]⟩
    · exact fun hk => hk.1.symm
  | some known =>
    by_cases hs : known.same m = true
    · simp only [hs, if_true, Except.ok.injEq]
      constructor
      · rintro rfl
        exact ⟨rfl, by simp [h, hs]⟩
      · exact fun hk => hk.1.symm
    · simp only [hs, if_false, reduceCtorEq, false_iff]
      rintro ⟨rfl, hk⟩
      exact hs (hk known h)

theorem lookup_append_of_some {α β : Type} [BEq α] {xs ys : List (α × β)} {a : α} {b : β}
    (h : xs.lookup a = some b) : (xs ++ ys).lookup a = some b := by
  rw [List.lookup_append, h, Option.some_or]

/-- Storing an operator keeps those that are there. -/
theorem get?_insert_of_some {table : OperandTable S} {key : Int} {known : Operator S}
    (m : Operator S) (h : table.get? key = some known) :
    (table.insert m).get? key = some known := by
  unfold insert
  dsimp only
  split
  · exact h
  · exact lookup_append_of_some h

/-- Under the key of an operator that was stored there is the operator, or another one that was
there before. -/
theorem get?_insert (table : OperandTable S) (m : Operator S) :
    (table.insert m).get? (table.keyOf m) = some ((table.get? (table.keyOf m)).getD m) := by
  cases h : table.get? (table.keyOf m) with
  | some known => exact get?_insert_of_some m h
  | none =>
    have hlookup : table.entries.lookup (table.keyOf m) = none := h
    unfold insert
    dsimp only
    -- the key is not in use, so the operator goes to the end of the table
    rw [if_neg (by simp [contains, h])]
    show (table.entries ++ [(table.keyOf m, m)]).lookup (table.keyOf m) = some m
    rw [List.lookup_append, hlookup]
    simp

/-- What is there after an operator was stored was there before, or it is that operator. -/
theorem get?_of_insert {table : OperandTable S} {m op : Operator S} {key : Int}
    (h : (table.insert m).get? key = some op) :
    table.get? key = some op ∨ key = table.keyOf m ∧ op = m := by
  unfold insert at h
  dsimp only at h
  split at h
  · exact .inl h
  · have hlookup : (table.entries ++ [(table.keyOf m, m)]).lookup key = some op := h
    rw [List.lookup_append, Option.or_eq_some_iff] at hlookup
    rcases hlookup with hold | ⟨-, hnew⟩
    · exact .inl hold
    · by_cases hkey : key = table.keyOf m
      · subst hkey
        simp at hnew
        exact .inr ⟨rfl, hnew.symm⟩
      · simp [List.lookup_cons, beq_false_of_ne hkey] at hnew

end OperandTable

/-- Tensors of equal entries have one shape. -/
theorem Tensor.shape_eq_of_same {K : Type} [BEq K] {a b : Tensor K} (h : a.same b = true) :
    a.shape = b.shape := by
  simp only [same, Bool.and_eq_true, beq_iff_eq] at h
  exact h.1

/-- The operator of an argument is accepted just if it is a square matrix of the size that it
needs and no other operator has its key. -/
theorem Circuit.checkOperand_eq_ok {S : Type} [Scalar S] {c : Circuit S} {arg : OperatorArg S}
    {acted : Nat} {op : Operator S} :
    c.checkOperand arg acted = .ok op ↔
      arg = .operator op ∧ op.shape = [c.dim ^ acted, c.dim ^ acted] ∧
        ∀ known, c.operands.get? (c.operands.keyOf op) = some known → known.same op = true := by
  unfold Circuit.checkOperand
  match arg with
  | .foreign _ | .raising _ => simp
  | .operator given =>
    -- the checks are made in this order, and the first refusal ends them
    rw [← Tensor.isSquare_and_rows_iff]
    by_cases hsquare : given.isSquare = true
    · by_cases hrows : given.rows = c.dim ^ acted
      · simp only [hsquare, hrows, Bool.not_true, Bool.false_eq_true, if_false, ne_eq,
          not_true_eq_false, map_eq_ok, OperandTable.keyFor_eq_ok, OperatorArg.operator.injEq]
        constructor
        · rintro ⟨key, ⟨rfl, hk⟩, rfl⟩
          exact ⟨rfl, ⟨hsquare, hrows⟩, hk⟩
        · rintro ⟨rfl, -, hk⟩
          exact ⟨_, ⟨rfl, hk⟩, rfl⟩
      · simp only [hsquare, hrows, Bool.not_true, Bool.false_eq_true, if_false, ne_eq,
          not_false_eq_true, if_true, reduceCtorEq, false_iff]
        rintro ⟨⟨⟩, ⟨-, h⟩, -⟩
        exact hrows h
    · simp only [hsquare, Bool.not_false, if_true, reduceCtorEq, false_iff]
      rintro ⟨⟨⟩, ⟨h, -⟩, -⟩
      exact hsquare h

end QuditSim
