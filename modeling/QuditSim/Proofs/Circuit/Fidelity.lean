import QuditSim.Proofs.Circuit.Atomic

/-!
# The operators that a circuit keeps

A step does not hold its operator but a key, and the operator is looked up when the step is run. The
function that computes keys can be any function, one that sends many operators to one key as well as
one that sends all of them there. Still no step ever gets an operator that it was not given: the key
of an operator is looked at before its step is recorded, and nothing that is stored is replaced.

- `Circuit.plan_eq_bind_checkKey`: the key of an operator is the last thing that is looked at, so a
  call with a taken key is refused for just that if nothing else speaks against it.
- `Circuit.Indexed` says that the keys of a circuit are those that its steps refer to, in the order
  of first use; `Circuit.Indexed.commit` is the step lemma.
- `Circuit.operands_faithful` is about any sequence of calls, of which some are refused, and about
  what becomes of their operators in any later calls.
-/

namespace QuditSim

open Fallible

@[simp] theorem Step.keys_gate (step : GateStep) : (Step.gate step).keys = [step.key] := rfl

@[simp] theorem Step.keys_measure (step : MeasureStep) : (Step.measure step).keys = step.keys := rfl

/-! ## Keys in the order of first use -/

/-- One more item at the end of a list counts if it did not occur before. -/
theorem eraseDups_concat {α : Type} [BEq α] [LawfulBEq α] [DecidableEq α] (xs : List α) (x : α) :
    (xs ++ [x]).eraseDups = if x ∈ xs then xs.eraseDups else xs.eraseDups ++ [x] := by
  rw [List.eraseDups_append]
  by_cases hx : x ∈ xs
  · simp [List.removeAll, hx]
  · simp [List.removeAll, hx, List.eraseDups_cons]

namespace OperandTable

variable {S : Type}

/-- There is an operator under a key just if it is one of the keys. -/
theorem contains_iff_mem_keys (table : OperandTable S) (key : Int) :
    table.contains key = true ↔ key ∈ table.keys := by
  simp only [contains, get?, List.lookup_isSome_iff, beq_iff_eq, keys, List.mem_map]
  constructor
  · rintro ⟨entry, hentry, rfl⟩
    exact ⟨entry, hentry, rfl⟩
  · rintro ⟨entry, hentry, rfl⟩
    exact ⟨entry, hentry, rfl⟩

/-- Storing an operator adds its key at the end, unless the key is there. -/
theorem keys_insert (table : OperandTable S) (m : Operator S) :
    (table.insert m).keys =
      if table.keyOf m ∈ table.keys then table.keys else table.keys ++ [table.keyOf m] := by
  simp only [insert, contains_iff_mem_keys]
  split
  · rfl
  · simp [keys]

/-- What is stored besides an operator was stored before. -/
theorem mem_entries_insert {table : OperandTable S} {m : Operator S} {entry : Int × Operator S}
    (h : entry ∈ (table.insert m).entries) :
    entry ∈ table.entries ∨ entry = (table.keyOf m, m) := by
  simp only [insert] at h
  split at h
  · exact .inl h
  · simpa using h

/-- An operator whose key belongs to an unequal one is not stored. -/
theorem keyFor_of_taken [Scalar S] {table : OperandTable S} {m known : Operator S}
    (hknown : table.get? (table.keyOf m) = some known) (hsame : known.same m = false) :
    table.keyFor m = .error (.keyTaken (table.keyOf m) known.shape) := by
  simp only [keyFor, hknown, hsame, Bool.false_eq_true, if_false]

end OperandTable

namespace Circuit

variable {S : Type} {c c' : Circuit S}

/-! ## The key is looked at last -/

/-- The circuit without its operators. All keys are free in it. -/
def cleared (c : Circuit S) : Circuit S := { c with operands := .empty c.operands.keyOf }

section Keys

variable [Scalar S]

/-- Lets an entry pass unless its operator has the key of an unequal one. -/
def checkKey (c : Circuit S) (entry : Entry S) : Except Cause (Entry S) :=
  match entry.operator? with
  | some op => do
    let _ ← c.operands.keyFor op
    return entry
  | none => .ok entry

/-- An operator is checked as if all keys were free, and then its key is looked at. -/
theorem checkOperand_eq_bind_keyFor (c : Circuit S) (arg : OperatorArg S) (acted : Nat) :
    c.checkOperand arg acted = do
      let op ← c.cleared.checkOperand arg acted
      let _ ← c.operands.keyFor op
      return op := by
  rcases arg with op | kind | error
  · have hfree : c.cleared.operands.keyFor op = .ok (c.operands.keyOf op) := rfl
    have hdim : c.cleared.dim = c.dim := rfl
    simp only [checkOperand, hdim, hfree]
    -- the size is checked before the key
    split
    · rfl
    · split
      · rfl
      · show (c.operands.keyFor op).map _ = c.operands.keyFor op >>= _
        cases c.operands.keyFor op <;> rfl
  · rfl
  · rfl

/-- A controlled gate is planned as if all keys were free, and then the key of its operator is
looked at. -/
theorem planControlled_eq_bind_checkKey (c : Circuit S) (control : Control) (kind : GateKind)
    (arg : OperatorArg S) (controls targets : List Int) (acted : Nat) (name : String) :
    c.planControlled control kind arg controls targets acted name =
      c.cleared.planControlled control kind arg controls targets acted name >>= c.checkKey := by
  cases control <;>
    · simp only [planControlled, bind_assoc, pure_bind, c.checkOperand_eq_bind_keyFor]
      rfl

/-- A call is planned as if all keys were free, and then the key of its operator is looked at. -/
theorem plan_eq_bind_checkKey (c : Circuit S) (call : Call S) :
    c.plan call = c.cleared.plan call >>= c.checkKey := by
  cases call with
  | qft => rfl
  | tfq => rfl
  | measureZ target dit name =>
    simp only [plan, bind_assoc, pure_bind]
    rfl
  | ctrl arg controls targets name =>
    simp only [plan, bind_assoc, c.planControlled_eq_bind_checkKey]
  | ctrlCustom arg controls targets name =>
    simp only [plan, bind_assoc, c.planControlled_eq_bind_checkKey]
  | cctrl arg controls targets name =>
    simp only [plan, bind_assoc, c.planControlled_eq_bind_checkKey]
  | cctrlCustom arg controls targets name =>
    simp only [plan, bind_assoc, c.planControlled_eq_bind_checkKey]
  | gateFan arg targets name =>
    -- whether targets are given or not, they are checked in the same way
    rcases targets with _ | targets <;>
      · simp only [plan, bind_assoc, pure_bind, c.checkOperand_eq_bind_keyFor]
        rfl
  | _ =>
    simp only [plan, bind_assoc, pure_bind, c.checkOperand_eq_bind_keyFor]
    rfl

/-- An entry whose operator has the key of an unequal one does not pass. -/
theorem checkKey_of_taken {entry : Entry S} {op known : Operator S}
    (hop : entry.operator? = some op)
    (hknown : c.operands.get? (c.operands.keyOf op) = some known) (hsame : known.same op = false) :
    c.checkKey entry = .error (.keyTaken (c.operands.keyOf op) known.shape) := by
  simp only [checkKey, hop, OperandTable.keyFor_of_taken hknown hsame]
  rfl

omit [Scalar S] in
/-- What an accepted call records has the operator that the call was given. -/
theorem Planned.operator?_eq {call : Call S} {entry : Entry S} (h : c.Planned call entry) :
    entry.operator? = call.operator? := by
  cases h <;> rfl

/-- A call whose operator has the key of an unequal one is not accepted. -/
theorem append_ne_ok_of_taken {call : Call S} {op known : Operator S}
    (hop : call.operator? = some op)
    (hknown : c.operands.get? (c.operands.keyOf op) = some known) (hsame : known.same op = false) :
    c.append call ≠ .ok c' := by
  intro hcall
  obtain ⟨entry, -, hplan, rfl⟩ := append_eq_ok.mp hcall
  rw [plan_eq_bind_checkKey, bind_eq_ok] at hplan
  obtain ⟨entry', hentry', hkey⟩ := hplan
  have hop' := (planned_of_plan hentry').operator?_eq.trans hop
  rw [checkKey_of_taken hop' hknown hsame] at hkey
  cases hkey

/-- A call that would be accepted if all keys were free is refused where its operator has the key of
an unequal one, and for that reason. -/
theorem append_of_taken {call : Call S} {op known : Operator S} (hop : call.operator? = some op)
    (hknown : c.operands.get? (c.operands.keyOf op) = some known) (hsame : known.same op = false)
    (hfree : c.cleared.append call = .ok c') :
    c.append call = .error (.located
      (.atStep call.operation c.stepCount (.keyTaken (c.operands.keyOf op) known.shape))) := by
  obtain ⟨entry, hmany, hplan, -⟩ := append_eq_ok.mp hfree
  have hop' := (planned_of_plan hplan).operator?_eq.trans hop
  have hplan' : c.plan call = .error (.keyTaken (c.operands.keyOf op) known.shape) := by
    rw [plan_eq_bind_checkKey, hplan]
    exact checkKey_of_taken hop' hknown hsame
  exact append_of_plan_error hmany hplan'

end Keys

/-! ## The table behind the log -/

/-- The operators of a circuit are those of its steps: each is stored under its own key, and the
keys are those that steps refer to, in the order of first use. -/
structure Indexed (c : Circuit S) : Prop where
  /-- The lists of gates, measurements and sorts fit together. -/
  ordered : c.Ordered
  /-- Every operator is stored under its own key. -/
  keyed : ∀ entry ∈ c.operands.entries, entry.1 = c.operands.keyOf entry.2
  /-- The keys are those of the steps. -/
  keys_eq : c.operands.keys = (c.log.flatMap Step.keys).eraseDups

theorem indexed_empty (serial qudits dits dim : Nat) (name : String) (namer : Operator S → String)
    (keyOf : Operator S → Int) : (empty serial qudits dits dim name namer keyOf).Indexed where
  ordered := ⟨rfl, rfl, rfl⟩
  keyed := nofun
  keys_eq := rfl

/-- Recording an entry stores its operator, if it has one. -/
theorem operands_commit (c : Circuit S) (entry : Entry S) :
    (c.commit entry).operands = entry.operator?.elim c.operands c.operands.insert := by
  rcases entry with _ | ⟨_, _ | _⟩ <;> rfl

/-- The step of an entry refers to its operator by the key of it. -/
theorem keys_stepOf (c : Circuit S) (entry : Entry S) :
    (c.stepOf entry).keys = (entry.operator?.map c.operands.keyOf).toList := by
  rcases entry with _ | _ <;> rfl

/-- Recording an entry keeps the table in step with the log. -/
theorem Indexed.commit (h : c.Indexed) (entry : Entry S) : (c.commit entry).Indexed := by
  obtain ⟨hlog, hordered⟩ := h.ordered.commit entry
  refine ⟨hordered, ?_, ?_⟩
  · rw [operands_commit]
    intro stored hstored
    rcases hop : entry.operator? with _ | op
    · rw [hop] at hstored
      exact h.keyed stored hstored
    · rw [hop] at hstored
      rw [Option.elim_some, OperandTable.keyOf_insert]
      rcases OperandTable.mem_entries_insert hstored with hold | rfl
      · exact h.keyed stored hold
      · rfl
  · rw [hlog, List.flatMap_append, List.flatMap_singleton, keys_stepOf, operands_commit]
    rcases entry.operator? with _ | op
    -- a measurement of digits refers to no operator
    · rw [Option.map_none, Option.toList_none, List.append_nil]
      exact h.keys_eq
    -- the key is new to the table just if it is new to the log
    · rw [Option.map_some, Option.toList_some, eraseDups_concat, Option.elim_some,
        OperandTable.keys_insert, h.keys_eq]
      simp only [List.mem_eraseDups]

/-! ## What becomes of the operators -/

section Calls

variable [Scalar S]

/-- The calls of a sequence that are accepted, in order. -/
def accepted (c : Circuit S) : List (Call S) → List (Call S)
  | [] => []
  | call :: calls =>
    match c.append call with
    | .ok c' => call :: c'.accepted calls
    | .error _ => c.accepted calls

/-- The accepted calls of a sequence lead to the same circuit as all of them. -/
theorem appendAll_accepted (c : Circuit S) (calls : List (Call S)) :
    c.appendAll (c.accepted calls) = .ok (c.attemptAll calls) := by
  induction calls generalizing c with
  | nil => rfl
  | cons call calls ih =>
    show c.appendAll (c.accepted (call :: calls)) = .ok ((c.attempt call).attemptAll calls)
    simp only [accepted, attempt]
    rcases hcall : c.append call with fault | c'
    · exact ih c
    · exact appendAll_cons_eq_ok.mpr ⟨c', hcall, ih c'⟩

/-- A step leads to the operator of a call: it refers to the key of the operator, and under this key
is the operator or one that is equal to it. -/
def Resolves (c : Circuit S) (call : Call S) (step : Step) : Prop :=
  step.keys = (call.operator?.map c.operands.keyOf).toList ∧
    ∀ op ∈ call.operator?, ∃ known, c.operands.get? (c.operands.keyOf op) = some known ∧
      (known = op ∨ known.same op = true)

/-- What was recorded for a call leads to its operator. -/
theorem RecordedFor.resolves {call : Call S} {step : Step} (h : c.RecordedFor call step) :
    c.Resolves call step := by
  obtain ⟨before, entry, hplanned, -, rfl, hstored⟩ := h
  have hop := hplanned.operator?_eq
  rw [hop] at hstored
  exact ⟨by rw [keys_stepOf, hop], hstored⟩

/-- A circuit has all that another one recorded and stored, where it was. -/
structure Extends (c c' : Circuit S) : Prop where
  /-- The steps stay, in their order. -/
  log : c.log <+: c'.log
  /-- The operators stay under their keys, in their order. -/
  entries : c.operands.entries <+: c'.operands.entries
  /-- A key that leads to an operator leads to the same one. -/
  lookup : ∀ key op, c.operands.get? key = some op → c'.operands.get? key = some op
  /-- Keys are computed in the same way. -/
  keyOf_eq : c'.operands.keyOf = c.operands.keyOf

/-- Calls leave what was recorded and stored before them. -/
theorem extends_attemptAll (hc : c.Ordered) (calls : List (Call S)) :
    c.Extends (c.attemptAll calls) := by
  refine (attemptAll_keeps (P := fun c' => c'.Ordered ∧ c.Extends c') ?_
    ⟨hc, List.prefix_rfl, List.prefix_rfl, fun _ _ h => h, rfl⟩).2
  intro c' hc' call _ entry _ _
  obtain ⟨hordered', hext⟩ := hc'
  obtain ⟨hlog, hordered⟩ := hordered'.commit entry
  refine ⟨hordered, ?_, ?_, ?_, ?_⟩
  · rw [hlog]
    exact hext.log.trans (List.prefix_append _ _)
  · exact hext.entries.trans (addsStep_commit c' entry).operands
  · intro key op hop
    exact (goesOn_commit c' entry).operands key op (hext.lookup key op hop)
  · exact (keyOf_commit c' entry).trans hext.keyOf_eq

/-- Calls keep the table in step with the log. -/
theorem Indexed.attemptAll (h : c.Indexed) (calls : List (Call S)) :
    (c.attemptAll calls).Indexed :=
  attemptAll_keeps (fun _ hc _ _ entry _ _ => hc.commit entry) h

/-- A step that leads to the operator of a call leads to it in any circuit that has all that there
was. -/
theorem Resolves.extends {call : Call S} {step : Step} (h : c.Resolves call step)
    (hc : c.Extends c') : c'.Resolves call step := by
  obtain ⟨hkeys, hstored⟩ := h
  rw [Resolves, hc.keyOf_eq]
  refine ⟨hkeys, ?_⟩
  intro op hop
  obtain ⟨known, hknown, hsame⟩ := hstored op hop
  exact ⟨known, hc.lookup _ _ hknown, hsame⟩

/-- Each accepted call of a sequence recorded one step, which leads to the operator of the call. -/
theorem Indexed.resolves_attemptAll (h : c.Indexed) (hlog : c.log = []) (calls : List (Call S)) :
    List.Forall₂ (c.attemptAll calls).Resolves (c.accepted calls) (c.attemptAll calls).log := by
  obtain ⟨⟨steps, hsteps, hrecorded⟩, -⟩ := appendAll_records h.ordered (c.appendAll_accepted calls)
  rw [hlog, List.nil_append] at hsteps
  rw [hsteps]
  exact hrecorded.imp fun _ _ => RecordedFor.resolves

/-- An operator is refused because its key belongs to another one: it gets no key in the table and
is not stored there, and no call brings it in. -/
structure RefusesTaken (c : Circuit S) (op known : Operator S) : Prop where
  /-- It gets no key. -/
  keyFor : c.operands.keyFor op = .error (.keyTaken (c.operands.keyOf op) known.shape)
  /-- It is not stored. -/
  register : c.operands.register op = .error (.keyTaken (c.operands.keyOf op) known.shape)
  /-- No call with it is accepted. -/
  append_ne : ∀ call c', call.operator? = some op → c.append call ≠ .ok c'
  /-- A call with it that would be accepted if all keys were free fails for its key, and the failure
  is a violation of integrity. -/
  append_eq : ∀ call c', call.operator? = some op → c.cleared.append call = .ok c' →
    ∃ failure : Failure, c.append call = .error (.located failure) ∧
      failure = .atStep call.operation c.stepCount (.keyTaken (c.operands.keyOf op) known.shape) ∧
      failure.family = .integrityViolation

/-- An operator is refused where its key belongs to an unequal one. -/
theorem refusesTaken {op known : Operator S}
    (hknown : c.operands.get? (c.operands.keyOf op) = some known) (hsame : known.same op = false) :
    c.RefusesTaken op known where
  keyFor := OperandTable.keyFor_of_taken hknown hsame
  register := by
    rw [OperandTable.register, OperandTable.keyFor_of_taken hknown hsame]
    rfl
  append_ne := fun _ _ hop => append_ne_ok_of_taken hop hknown hsame
  append_eq := fun _ _ hop hfree => ⟨_, append_of_taken hop hknown hsame hfree, rfl, rfl⟩

/-- Whatever function computes the keys, and whatever is asked of a new circuit: each accepted call
recorded one step, and the step leads to the operator that the call was given, then and after any
more calls. What is stored stays where it is, each operator is stored under its own key, and the
keys are those that steps refer to, in the order of first use. An operator whose key belongs to an
unequal one is refused. -/
theorem operands_faithful [Capacity] {serial : Nat} {qudits dits dim : Argument} {name : String}
    {namerFor : Nat → Except ExtentFault (Operator S → String)} {keyOf : Operator S → Int}
    (h : create? serial qudits dits dim name namerFor keyOf = .ok c) (calls more : List (Call S)) :
    let reached := c.attemptAll calls
    let later := reached.attemptAll more
    reached.operands.keyOf = keyOf ∧ reached.Indexed ∧ reached.Extends later ∧
      List.Forall₂ reached.Resolves (c.accepted calls) reached.log ∧
      List.Forall₂ later.Resolves (c.accepted calls) reached.log ∧
      ∀ op known, reached.operands.get? (keyOf op) = some known → known.same op = false →
        reached.RefusesTaken op known := by
  intro reached later
  obtain ⟨n, m, d, namer, rfl⟩ := create?_eq_ok h
  have hstart := indexed_empty serial n m d name namer keyOf
  have hkeyOf : reached.operands.keyOf = keyOf := (extends_attemptAll hstart.ordered calls).keyOf_eq
  have hreached : reached.Indexed := hstart.attemptAll calls
  have hlater : reached.Extends later := extends_attemptAll hreached.ordered more
  have hresolves := hstart.resolves_attemptAll rfl calls
  refine ⟨hkeyOf, hreached, hlater, hresolves, ?_, ?_⟩
  · exact hresolves.imp fun _ _ hstep => hstep.extends hlater
  · intro op known hknown hsame
    rw [← hkeyOf] at hknown
    exact refusesTaken hknown hsame

section

attribute [local instance] Capacity.common

/-- Where all operators have one key, a circuit takes the first of them and refuses the others. -/
theorem operands_faithful_constant :
    let c : Circuit Float := empty 0 2 0 2 "" (fun _ => "") fun _ => 7
    let one : Operator Float := .identity 2
    let other : Operator Float := .identity 4
    let calls : List (Call Float) :=
      [.gate (.operator one) [.int 0] "", .gate (.operator other) [.int 0, .int 1] ""]
    create? 0 (.int 2) (.int 0) (.int 2) "" (fun _ => .ok fun _ => "") (fun _ => 7) = .ok c ∧
      (c.attemptAll calls).log.map Step.keys = [[7]] ∧
      (c.attemptAll calls).operands.get? 7 = some one ∧ one.same other = false ∧
      (c.attemptAll calls).RefusesTaken other one := by
  intro c one other calls
  have hc : create? 0 (.int 2) (.int 0) (.int 2) "" (fun _ => .ok fun _ => "") (fun _ => 7) =
      .ok c := rfl
  have hone : (c.attemptAll calls).operands.get? 7 = some one := rfl
  have hsame : one.same other = false := rfl
  obtain ⟨-, -, -, -, -, hrefused⟩ := operands_faithful hc calls []
  exact ⟨hc, rfl, hone, hsame, hrefused other one hone hsame⟩

end

end Calls

end Circuit

end QuditSim
