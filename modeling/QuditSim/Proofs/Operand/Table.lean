import QuditSim.Proofs.Circuit.Fidelity
import QuditSim.Proofs.Circuit.Replay
import QuditSim.Proofs.NotANumber

/-!
# Operators stored one after the other

A table takes operators under the keys that its function computes, whatever the function is. An
operator whose key belongs to an unequal one is refused, and what is stored is never replaced. An
operator that was stored is found again just if it is equal to itself, and it is not if a part of an
entry is not a number.

- `OperandTable.attemptAll` stores operators of which some may be refused, and
  `OperandTable.attemptAll_keeps` is the induction over them. `OperandTable.Extends` says what they leave
  alone.
- `Circuit.exists_operands_eq`: calls of a circuit store operators in its table.
- `Operator.same_self_iff`: an operator is equal to itself just if its entries are numbers.
- `OperandTable.register_again_iff` is about an operator that was stored and is given again, to a table
  or to a circuit.
-/

namespace QuditSim

open Fallible

namespace OperandTable

section Runs

variable {S : Type} [Scalar S] {table table' : OperandTable S} {m : Operator S} {key : Int}

theorem register_eq_ok :
    table.register m = .ok (key, table') ↔ table.keyFor m = .ok key ∧ table.insert m = table' := by
  simp [register, map_eq_ok, and_comm]

/-- Stores an operator, unless it is refused. -/
def attempt (table : OperandTable S) (m : Operator S) : OperandTable S :=
  match table.register m with
  | .ok (_, stored) => stored
  | .error _ => table

/-- Stores operators one after the other, apart from those that are refused. -/
def attemptAll (table : OperandTable S) (ms : List (Operator S)) : OperandTable S :=
  ms.foldl attempt table

theorem attempt_of_keyFor (h : table.keyFor m = .ok key) : table.attempt m = table.insert m := by
  have hregister : table.register m = .ok (key, table.insert m) := register_eq_ok.mpr ⟨h, rfl⟩
  simp only [attempt, hregister]

/-- An operator is refused, and the table stays as it is, or it is stored. -/
theorem attempt_cases (table : OperandTable S) (m : Operator S) :
    table.attempt m = table ∨ ∃ key, table.keyFor m = .ok key ∧ table.attempt m = table.insert m := by
  cases h : table.keyFor m with
  | error cause =>
    have hregister : table.register m = .error cause := by rw [register, h]; rfl
    exact .inl (by simp only [attempt, hregister])
  | ok key => exact .inr ⟨key, rfl, attempt_of_keyFor h⟩

/-- What is kept when an operator is stored is kept by operators of which each is stored or refused. -/
theorem attemptAll_keeps {P : OperandTable S → Prop} {ms : List (Operator S)}
    (hkeep : ∀ table, P table → ∀ m ∈ ms, ∀ key, table.keyFor m = .ok key → P (table.insert m))
    (h : P table) : P (table.attemptAll ms) := by
  induction ms generalizing table with
  | nil => exact h
  | cons m ms ih =>
    refine ih (fun table h n hn => hkeep table h n (List.mem_cons_of_mem _ hn)) ?_
    rcases table.attempt_cases m with hsame | ⟨key, hkey, hstored⟩
    · rwa [hsame]
    · rw [hstored]
      exact hkeep table h m List.mem_cons_self key hkey

theorem attemptAll_concat (table : OperandTable S) (ms : List (Operator S)) (m : Operator S) :
    table.attemptAll (ms ++ [m]) = (table.attemptAll ms).attempt m := by
  simp [attemptAll]

/-! ## What a table keeps -/

/-- A table has what another one stored, under the same keys. -/
structure Extends (table later : OperandTable S) : Prop where
  /-- Keys are computed in the same way. -/
  keyOf_eq : later.keyOf = table.keyOf
  /-- A key that leads to an operator leads to the same one. -/
  lookup : ∀ key known, table.get? key = some known → later.get? key = some known

theorem extends_attemptAll (table : OperandTable S) (ms : List (Operator S)) :
    table.Extends (table.attemptAll ms) := by
  refine attemptAll_keeps (P := table.Extends) (fun later h m _ _ _ => ?_) ⟨rfl, fun _ _ h => h⟩
  exact ⟨(keyOf_insert later m).trans h.keyOf_eq,
    fun key known hknown => get?_insert_of_some m (h.lookup key known hknown)⟩

/-- Operators stored one after the other are found under their own keys. -/
theorem Keyed.attemptAll (h : table.Keyed) (ms : List (Operator S)) : (table.attemptAll ms).Keyed :=
  attemptAll_keeps (fun _ h m _ _ _ => h.insert m) h

/-- What is found after operators were stored is one of them, or it was found before. -/
theorem get?_of_attemptAll {ms : List (Operator S)} {known : Operator S}
    (h : (table.attemptAll ms).get? key = some known) : table.get? key = some known ∨ known ∈ ms := by
  revert h
  refine attemptAll_keeps (P := fun later => later.get? key = some known →
    table.get? key = some known ∨ known ∈ ms) (fun later hlater m hm _ _ h => ?_) .inl
  rcases get?_of_insert h with hold | ⟨-, rfl⟩
  · exact hlater hold
  · exact .inr hm

/-- What is found in a table that was empty is one of the operators that were stored, under its key. -/
theorem get?_attemptAll_empty {keyOf : Operator S → Int} {ms : List (Operator S)} {known : Operator S}
    (h : ((empty keyOf).attemptAll ms).get? key = some known) : known ∈ ms ∧ keyOf known = key := by
  have hkey : ((empty keyOf).attemptAll ms).keyOf known = key :=
    (keyed_empty keyOf).attemptAll ms key known h
  rw [((empty keyOf).extends_attemptAll ms).keyOf_eq] at hkey
  rcases get?_of_attemptAll h with hnone | hmem
  · cases hnone
  · exact ⟨hmem, hkey⟩

/-- Under the key of an operator that was stored is the operator, or one that is equal to it. -/
theorem get?_of_register (h : table.register m = .ok (key, table')) :
    key = table'.keyOf m ∧ ∃ known, table'.get? key = some known ∧ (known = m ∨ known.same m = true) := by
  obtain ⟨hkey, rfl⟩ := register_eq_ok.mp h
  obtain ⟨rfl, hsame⟩ := keyFor_eq_ok.mp hkey
  refine ⟨(congrFun (keyOf_insert table m) m).symm, _, get?_insert table m, ?_⟩
  cases hknown : table.get? (table.keyOf m) with
  | none => exact .inl rfl
  | some known => exact .inr (hsame known hknown)

/-- An operator gets no key just if an unequal one has it. -/
theorem keyFor_eq_error {cause : Cause} :
    table.keyFor m = .error cause ↔ ∃ known, table.get? (table.keyOf m) = some known ∧
      known.same m = false ∧ cause = .keyTaken (table.keyOf m) known.shape := by
  constructor
  · intro h
    simp only [keyFor] at h
    split at h
    · next known hknown =>
      split at h
      · cases h
      · next hsame => exact ⟨known, hknown, by simpa using hsame, (Except.error.inj h).symm⟩
    · cases h
  · rintro ⟨known, hknown, hsame, rfl⟩
    exact keyFor_of_taken hknown hsame

/-! ## Operators that are given again -/

/-- A table has a key for an operator and stores nothing for it. -/
structure Answers (table : OperandTable S) (m : Operator S) (key : Int) : Prop where
  /-- The key is found. -/
  keyFor : table.keyFor m = .ok key
  /-- The table stays as it is. -/
  register : table.register m = .ok (key, table)

/-- A table has no key for an operator and does not store it. -/
structure Refuses (table : OperandTable S) (m : Operator S) (cause : Cause) : Prop where
  /-- No key is found. -/
  keyFor : table.keyFor m = .error cause
  /-- The operator is not stored. -/
  register : table.register m = .error cause

variable {known : Operator S}

/-- A table with an equal operator under the key of an operator has this key for it. -/
theorem answers_of_same (hknown : table.get? (table.keyOf m) = some known)
    (hsame : known.same m = true) : table.Answers m (table.keyOf m) := by
  have hkey : table.keyFor m = .ok (table.keyOf m) :=
    keyFor_eq_ok.mpr ⟨rfl, fun other hother => by rwa [← Option.some.inj (hknown.symm.trans hother)]⟩
  have hcontains : table.contains (table.keyOf m) = true := by rw [contains, hknown]; rfl
  have hinsert : table.insert m = table := by simp only [insert, hcontains, if_true]
  exact ⟨hkey, register_eq_ok.mpr ⟨hkey, hinsert⟩⟩

/-- A table with an unequal operator under the key of an operator refuses it. -/
theorem refuses_of_not_same (hknown : table.get? (table.keyOf m) = some known)
    (hsame : known.same m = false) :
    table.Refuses m (.keyTaken (table.keyOf m) known.shape) where
  keyFor := keyFor_of_taken hknown hsame
  register := by
    rw [register, keyFor_of_taken hknown hsame]
    rfl

end Runs

end OperandTable

/-! ## The operators of a circuit -/

namespace Circuit

variable {S : Type} [Scalar S]

/-- The table of a circuit after any calls is the one that it was, with operators stored one after the
other. -/
theorem exists_operands_eq (c : Circuit S) (calls : List (Call S)) :
    ∃ ms, (c.attemptAll calls).operands = c.operands.attemptAll ms := by
  refine attemptAll_keeps (P := fun c' => ∃ ms, c'.operands = c.operands.attemptAll ms) ?_ ⟨[], rfl⟩
  rintro c' ⟨ms, hms⟩ call - entry hsound -
  rw [operands_commit]
  cases hop : entry.operator? with
  | none => exact ⟨ms, hms⟩
  | some op =>
    obtain ⟨k, -, hsame⟩ := hsound.storable op hop
    have hkey : c'.operands.keyFor op = .ok (c'.operands.keyOf op) :=
      OperandTable.keyFor_eq_ok.mpr ⟨rfl, hsame⟩
    refine ⟨ms ++ [op], ?_⟩
    rw [OperandTable.attemptAll_concat, ← hms, OperandTable.attempt_of_keyFor hkey]
    rfl

/-- A call that would be accepted if all keys were free is accepted where its operator has a key. -/
theorem exists_append_of_keyFor {c c' : Circuit S} {call : Call S} {op : Operator S} {key : Int}
    (hop : call.operator? = some op) (hkey : c.operands.keyFor op = .ok key)
    (hfree : c.cleared.append call = .ok c') :
    ∃ out, c.append call = .ok out ∧ out.operands = c.operands.insert op := by
  obtain ⟨entry, hmany, hplan, -⟩ := append_eq_ok.mp hfree
  have hop' := (planned_of_plan hplan).operator?_eq.trans hop
  have hplan' : c.plan call = .ok entry := by
    rw [plan_eq_bind_checkKey, hplan]
    show c.checkKey entry = .ok entry
    simp only [checkKey, hop', hkey]
    rfl
  refine ⟨_, append_eq_ok.mpr ⟨entry, hmany, hplan', rfl⟩, ?_⟩
  rw [operands_commit, hop']
  rfl

/-- Under the key of an operator that a call brought in is the operator, or one that is equal to it. -/
theorem get?_of_append {c c' : Circuit S} {call : Call S} {op : Operator S}
    (hop : call.operator? = some op) (h : c.append call = .ok c') :
    ∃ known, c'.operands.get? (c'.operands.keyOf op) = some known ∧
      (known = op ∨ known.same op = true) := by
  obtain ⟨entry, hmany, hplan, rfl⟩ := append_eq_ok.mp h
  have hop' : op ∈ entry.operator? := (planned_of_plan hplan).operator?_eq.trans hop
  obtain ⟨k, -, hsame⟩ := (sound_of_plan hmany hplan).storable op hop'
  rw [keyOf_commit]
  refine ⟨_, get?_commit c entry op hop', ?_⟩
  cases hknown : c.operands.get? (c.operands.keyOf op) with
  | none => exact .inl rfl
  | some known => exact .inr (hsame known hknown)

end Circuit

/-! ## Operators that are not equal to themselves -/

/-- All parts of all entries of an operator are numbers. -/
def Operator.AllNumbers (m : Operator Float) : Prop := ∀ z ∈ m.entries.toList, ¬ z.Broken

/-- An operator is equal to itself just if its entries are numbers. -/
theorem Operator.same_self_iff {m : Operator Float} : m.same m = true ↔ m.AllNumbers := by
  simp only [Tensor.same, beq_self_eq_true, Bool.true_and, List.zip_eq_zipWith, List.zipWith_self,
    List.all_map, List.all_eq_true, Function.comp_apply, Amplitude.beq_self_iff, AllNumbers]

namespace OperandTable

/-- An operator that was stored gets its key again if it is equal to itself. If not, it is itself what is
stored under its key. -/
theorem answers_or_unequal {table : OperandTable Float} {m known : Operator Float}
    (hknown : table.get? (table.keyOf m) = some known) (hstored : known = m ∨ known.same m = true) :
    (m.AllNumbers → table.Answers m (table.keyOf m)) ∧
      (¬ m.AllNumbers → known = m ∧ m.same m = false) := by
  rw [← Operator.same_self_iff]
  refine ⟨fun hself => answers_of_same hknown ?_, fun hself => ?_⟩
  · rcases hstored with rfl | hsame
    · exact hself
    · exact hsame
  · rcases hstored with rfl | hsame
    · exact ⟨rfl, by simpa using hself⟩
    -- an operator that is equal to any is equal to itself
    · exact absurd (Operator.same_self_of_same (Operator.same_symm hsame)) hself

/-- Whatever function computes the keys and whatever is stored or refused in between: an operator that
was stored gets its key again and nothing more is stored, if all parts of its entries are numbers. If one
is not, the operator is refused for being unequal to itself. A circuit that took an operator of numbers
takes it again in any call that nothing else speaks against, and any other operator never again. -/
theorem register_again_iff (m : Operator Float) :
    (∀ (table table' : OperandTable Float) (key : Int), table.register m = .ok (key, table') →
      ∀ further : List (Operator Float),
        (m.AllNumbers → (table'.attemptAll further).Answers m key) ∧
        (¬ m.AllNumbers → (table'.attemptAll further).Refuses m (.keyTaken key m.shape))) ∧
    (∀ (c c' : Circuit Float) (call : Call Float), call.operator? = some m →
      c.append call = .ok c' → ∀ between : List (Call Float),
        (m.AllNumbers → ∀ again free, again.operator? = some m →
          (c'.attemptAll between).cleared.append again = .ok free →
            ∃ out, (c'.attemptAll between).append again = .ok out ∧
              out.operands = (c'.attemptAll between).operands) ∧
        (¬ m.AllNumbers → (c'.attemptAll between).RefusesTaken m m)) := by
  refine ⟨fun table table' key h further => ?_, fun c c' call hop h between => ?_⟩
  · obtain ⟨rfl, known, hknown, hstored⟩ := get?_of_register h
    have hext := table'.extends_attemptAll further
    rw [← hext.keyOf_eq] at hknown ⊢
    have hlater := hext.lookup _ _ hknown
    obtain ⟨hanswers, hself⟩ := answers_or_unequal hlater hstored
    refine ⟨hanswers, fun hbroken => ?_⟩
    obtain ⟨rfl, hsame⟩ := hself hbroken
    exact refuses_of_not_same hlater hsame
  · obtain ⟨known, hknown, hstored⟩ := Circuit.get?_of_append hop h
    obtain ⟨ms, hms⟩ := c'.exists_operands_eq between
    have hext := c'.operands.extends_attemptAll ms
    rw [← hms] at hext
    rw [← hext.keyOf_eq] at hknown
    have hlater := hext.lookup _ _ hknown
    obtain ⟨hanswers, hself⟩ := answers_or_unequal hlater hstored
    refine ⟨fun hnumbers again free hagain hfree => ?_, fun hbroken => ?_⟩
    · obtain ⟨hkey, hregister⟩ := hanswers hnumbers
      obtain ⟨out, hout, hoperands⟩ := Circuit.exists_append_of_keyFor hagain hkey hfree
      exact ⟨out, hout, hoperands.trans (register_eq_ok.mp hregister).2⟩
    · obtain ⟨rfl, hsame⟩ := hself hbroken
      exact Circuit.refusesTaken hlater hsame

/-- An operator with an entry that is not a number is stored once and refused the second time. -/
theorem register_again_fails :
    let m : Operator Float := Gate.ofRows [[.ofReal (0 / 0), 0], [0, 1]]
    let table := (empty Operator.contentKey).insert m
    (empty Operator.contentKey).register m = .ok (m.contentKey, table) ∧
      table.Refuses m (.keyTaken m.contentKey [2, 2]) := by
  intro m table
  have hknown : table.get? (table.keyOf m) = some m := by
    rw [keyOf_insert]
    exact get?_insert (empty Operator.contentKey) m
  have hsame : m.same m = false := by decide +kernel
  have hrefuses := refuses_of_not_same hknown hsame
  rw [keyOf_insert] at hrefuses
  exact ⟨register_eq_ok.mpr ⟨rfl, rfl⟩, hrefuses⟩

end OperandTable

end QuditSim
