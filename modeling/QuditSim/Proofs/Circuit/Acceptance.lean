import QuditSim.Proofs.Circuit.Planned

/-!
# Which calls are accepted, and what the others are refused for

Nine operations append steps, and each of them checks its arguments in its own way. What they ask
for is the same: a `Request` says which indices a call names and which operator it brings, and
`Request.conditions` lists what has to be true of it, in one order for all operations. A `Condition`
comes with the class of the refusal where it fails. There are refusals that do not get that far: an
argument can raise an error of its own, and a text with a very long integer in it is not made. So a
condition also says which error takes the place of the refusal, if there is one.

- `FirstFailing` finds the condition of a list that decides how a call is refused, and `Settles` says
  that a computation succeeds if a list of conditions holds and fails as the first one says that does
  not. `Settles.bind` goes from the stages of a computation to the whole.
- `Circuit.plan_settles` is the case of each operation.
- `Circuit.append_iff_conditions`: a call is accepted just if its conditions hold, and otherwise it is
  refused as the first one says that fails.
- `Circuit.append_unclassed` are calls whose error is not of the class of their first failing condition.
-/

namespace QuditSim

open Fallible

variable {S α β : Type}

/-- A text is not made for its integers just if one of them has too many digits. -/
theorem PlainFault.ofIntegers_eq_some {integers : List Int} :
    ofIntegers integers = some .manyDigits ↔ ∃ i ∈ integers, 10 ^ Text.digitLimit ≤ i.natAbs := by
  unfold ofIntegers Text.isWritable
  simp

/-- A failure is not seen where another error takes its place. -/
theorem CircuitFault.ofFailure_of_plain {failure : Failure} {plain : PlainFault}
    (h : failure.cause.plain? = some plain) : ofFailure failure = .plain plain := by
  unfold ofFailure
  rw [h]

/-- A failure that is seen is the one that there was. -/
theorem CircuitFault.eq_of_ofFailure {failure seen : Failure} (h : ofFailure failure = .located seen) :
    failure = seen := by
  unfold ofFailure at h
  split at h <;> cases h
  rfl

/-! ## Conditions in order -/

/-- The classes that refusals of calls fall into. -/
inductive RefusalClass where
  /-- A failure of some family, with its place. -/
  | located (family : Family)
  /-- A gate on more qudits than three. -/
  | manyTargets
deriving DecidableEq

/-- The class of a fault, if it is one that calls are refused with. -/
def CircuitFault.refusalClass? : CircuitFault → Option RefusalClass
  | located failure => some (.located failure.family)
  | manyTargets _ => some .manyTargets
  | _ => none

/-- Something that has to be true of a call. -/
structure Condition where
  /-- The class of the refusal where it is not. -/
  kind : RefusalClass
  /-- What has to be true. -/
  holds : Prop
  /-- The error that takes the place of the refusal, if there is one. -/
  plain? : Option PlainFault := none

/-- Conditions in the order in which they count. -/
abbrev Conditions : Type := List Condition

/-- A condition is the first one that fails. -/
inductive FirstFailing : Conditions → Condition → Prop
  /-- The condition in front fails. -/
  | here {condition : Condition} {rest : Conditions} (h : ¬ condition.holds) :
    FirstFailing (condition :: rest) condition
  /-- The condition in front holds, and one behind it fails first. -/
  | later {condition other : Condition} {rest : Conditions} (h : other.holds)
    (hrest : FirstFailing rest condition) : FirstFailing (other :: rest) condition

namespace FirstFailing

variable {first rest : Conditions} {condition : Condition}

theorem mem_and_not (h : FirstFailing rest condition) : condition ∈ rest ∧ ¬ condition.holds := by
  induction h with
  | here h => exact ⟨List.mem_cons_self, h⟩
  | later _ _ ih => exact ⟨List.mem_cons_of_mem _ ih.1, ih.2⟩

/-- Where a condition fails, not all of them hold. -/
theorem not_forall (h : FirstFailing rest condition) : ¬ ∀ other ∈ rest, other.holds :=
  fun hall => h.mem_and_not.2 (hall _ h.mem_and_not.1)

/-- There is one condition that fails first. -/
theorem unique {other : Condition} (h : FirstFailing rest condition)
    (hother : FirstFailing rest other) : condition = other := by
  induction h with
  | here h =>
    cases hother with
    | here => rfl
    | later hholds => exact absurd hholds h
  | later h _ ih =>
    cases hother with
    | here hnot => exact absurd h hnot
    | later _ hother => exact ih hother

/-- Conditions behind the first one that fails do not count. -/
theorem append (h : FirstFailing first condition) (rest : Conditions) :
    FirstFailing (first ++ rest) condition := by
  induction h with
  | here h => exact .here h
  | later h _ ih => exact .later h ih

/-- Conditions that hold do not count. -/
theorem append_of_forall (h : FirstFailing rest condition) (hfirst : ∀ other ∈ first, other.holds) :
    FirstFailing (first ++ rest) condition := by
  induction first with
  | nil => exact h
  | cons other first ih =>
    obtain ⟨hother, hfirst⟩ := List.forall_mem_cons.mp hfirst
    exact .later hother (ih hfirst)

end FirstFailing

/-- A computation succeeds if the conditions hold, and fails as the first one says that does not. -/
def Settles (x : Except Cause α) (conditions : Conditions) : Prop :=
  match x with
  | .ok _ => ∀ condition ∈ conditions, condition.holds
  | .error cause => ∃ condition, FirstFailing conditions condition ∧
      condition.kind = .located cause.family ∧ condition.plain? = cause.plain?

namespace Settles

variable {x : Except Cause α} {f : α → Except Cause β} {condition : Condition} {rest : Conditions}

theorem pure (a : α) : Settles (.ok a) [] := by
  simp [Settles]

/-- A computation settles the one condition that it asks for. -/
theorem single (hok : ∀ a, x = .ok a → condition.holds)
    (herror : ∀ cause, x = .error cause → ¬ condition.holds ∧
      condition.kind = .located cause.family ∧ condition.plain? = cause.plain?) :
    Settles x [condition] := by
  cases x with
  | ok a => exact List.forall_mem_singleton.mpr (hok a rfl)
  | error cause =>
    obtain ⟨hnot, hkind, hplain⟩ := herror cause rfl
    exact ⟨condition, .here hnot, hkind, hplain⟩

/-- A guard settles the condition that it decides. -/
theorem guard {check : Except Cause Unit} (hcheck : check = .ok () ↔ condition.holds)
    (herror : ∀ cause, check = .error cause →
      condition.kind = .located cause.family ∧ condition.plain? = cause.plain?) :
    Settles check [condition] := by
  refine single (fun _ h => hcheck.mp h) fun cause h => ⟨fun hholds => ?_, herror cause h⟩
  rw [hcheck.mpr hholds] at h
  cases h

/-- A sequence settles the conditions of its stages one after the other. -/
theorem bind {first : Conditions} (hx : Settles x first)
    (hf : ∀ a, x = .ok a → Settles (f a) rest) : Settles (x >>= f) (first ++ rest) := by
  cases x with
  | ok a =>
    -- the first stage is past its conditions, and those of the rest decide
    have hfirst : ∀ condition ∈ first, condition.holds := hx
    have hrest : Settles (f a) rest := hf a rfl
    show Settles (f a) (first ++ rest)
    unfold Settles at hrest ⊢
    split at hrest
    · exact List.forall_mem_append.mpr ⟨hfirst, hrest⟩
    · obtain ⟨condition, hfails, hcause⟩ := hrest
      exact ⟨condition, hfails.append_of_forall hfirst, hcause⟩
  | error cause =>
    obtain ⟨condition, hfails, hcause⟩ := hx
    exact ⟨condition, hfails.append rest, hcause⟩

/-- A condition that holds anyway can stand in front. -/
theorem cons_of_holds (hholds : condition.holds) (h : Settles x rest) :
    Settles x (condition :: rest) := by
  cases x with
  | ok a => exact List.forall_mem_cons.mpr ⟨hholds, h⟩
  | error cause =>
    obtain ⟨other, hfails, hcause⟩ := h
    exact ⟨other, .later hholds hfails, hcause⟩

end Settles

/-! ## What a call asks for -/

/-- The integer that an item is. -/
def IndexItem.value? : IndexItem → Option Int
  | int value => some value
  | foreign _ | raising _ => none

/-- The error of an item that is passed on. -/
def IndexItem.plain? : IndexItem → Option PlainFault
  | raising error => error.plain?
  | int _ | foreign _ => none

namespace IndexArg

/-- The integers among the items of an argument. -/
def values : IndexArg → List Int
  | one value _ => [value]
  | many items => items.filterMap IndexItem.value?
  | foreign _ | raising _ => []

/-- The argument is a list of integers. -/
def IsList : IndexArg → Prop
  | many items => ∀ item ∈ items, item.value?.isSome
  | _ => False

/-- The argument is an integer or a list of integers. -/
def IsIndices : IndexArg → Prop
  | one .. => True
  | arg => arg.IsList

/-- The error of an argument that is passed on, or that of the first item that is no integer. -/
def plain? : IndexArg → Option PlainFault
  | many items => (items.find? fun item => item.value?.isNone).bind IndexItem.plain?
  | raising error => error.plain?
  | one .. | foreign _ => none

end IndexArg

namespace Condition

/-- A joint gate has no more than three targets. -/
def few (items : List IndexItem) : Condition where
  kind := .manyTargets
  holds := items.length ≤ 3

/-- The operation is there. -/
def unreserved : Condition where
  kind := .located .unsupportedOperation
  holds := False

/-- An argument is a list of integers. -/
def list (arg : IndexArg) : Condition where
  kind := .located .invalidIndex
  holds := arg.IsList
  plain? := arg.plain?

/-- An argument is an integer or a list of integers. -/
def indices (arg : IndexArg) : Condition where
  kind := .located .invalidIndex
  holds := arg.IsIndices
  plain? := arg.plain?

/-- A list has an item. -/
def nonempty (indices : List Int) : Condition where
  kind := .located .emptyTargetSet
  holds := indices ≠ []

/-- Indices are in the range below a bound. The first one that is not is written, with the bound. -/
def inRange (bound : Nat) (indices : List Int) : Condition where
  kind := .located .invalidIndex
  holds := ∀ i ∈ indices, InRange bound i
  plain? := (indices.find? (Circuit.outside bound)).bind fun i => PlainFault.ofIntegers [i, bound]

/-- Qudits were not measured. The first one that was is written. -/
def live (c : Circuit S) (qudits : List Int) : Condition where
  kind := .located .alreadyMeasured
  holds := ∀ q ∈ qudits, q ∉ c.measured
  plain? := (qudits.find? c.isMeasured).bind fun q => PlainFault.ofIntegers [q]

/-- No index is named twice. All of them are written. -/
def distinct (indices : List Int) : Condition where
  kind := .located .duplicateIndex
  holds := indices.Nodup
  plain? := PlainFault.ofIntegers indices

/-- No qudit is control and target. Those that are both are written. -/
def disjoint (controls targets : List Int) : Condition where
  kind := .located .invalidIndex
  holds := ∀ q ∈ controls, q ∉ targets
  plain? := PlainFault.ofIntegers (Circuit.sharedIndices controls targets)

/-- An argument is a square matrix for a number of qudits. For a matrix of another size, the right one
is written. -/
def operator (c : Circuit S) (arg : OperatorArg S) (acted : Nat) : Condition where
  kind := .located .shapeMismatch
  holds := ∃ op, arg = .operator op ∧ op.shape = [c.dim ^ acted, c.dim ^ acted]
  plain? := match arg with
    | .operator op =>
      if op.isSquare then PlainFault.ofIntegers [acted, c.dim, (c.dim ^ acted : Nat)] else none
    | .foreign _ => none
    | .raising error => error.plain?

/-- The key of an operator does not belong to an unequal one. -/
def key [Scalar S] (c : Circuit S) (arg : OperatorArg S) : Condition where
  kind := .located .integrityViolation
  holds := ∀ op, arg = .operator op → ∀ known,
    c.operands.get? (c.operands.keyOf op) = some known → known.same op = true

end Condition

/-- What a call asks for: the indices that it names, as far as its arguments are integers, and its
operator. -/
structure Request (S : Type) where
  /-- What the arguments for indices have to be, before an index is looked at. -/
  arguments : Conditions
  /-- The lists that need an item. -/
  required : List (List Int)
  /-- The indices with the bounds of their ranges. -/
  ranges : List (Nat × List Int)
  /-- The qudits that control. -/
  controls : List Int := []
  /-- The qudits that are acted on. -/
  targets : List Int
  /-- The lists that may not name an index twice. -/
  lists : List (List Int)
  /-- The operator with the number of qudits that it acts on. -/
  operator : Option (OperatorArg S × Nat)

/-- What has to be true of the indices and of the operator, in the order in which it counts. -/
def Request.checked [Scalar S] (request : Request S) (c : Circuit S) : Conditions :=
  request.required.map Condition.nonempty ++
  request.ranges.map (fun (bound, indices) => Condition.inRange bound indices) ++
  [Condition.live c (request.controls ++ request.targets)] ++
  request.lists.map Condition.distinct ++
  [Condition.disjoint request.controls request.targets] ++
  request.operator.toList.flatMap fun (arg, acted) =>
    [Condition.operator c arg acted, Condition.key c arg]

/-- What has to be true of a request: arguments have to be read before anything is checked. -/
def Request.conditions [Scalar S] (request : Request S) (c : Circuit S) : Conditions :=
  request.arguments ++ request.checked c

namespace Circuit

/-- What a call asks for. The two reserved operations ask for nothing that there is. -/
def request? (c : Circuit S) : Call S → Option (Request S)
  | .gate op items _ =>
    let targets := (IndexArg.many items).values
    some
      { arguments := [.few items, .list (.many items)]
        required := [targets]
        ranges := [(c.qudits, targets)]
        targets
        lists := [targets]
        operator := some (op, targets.length) }
  | .gateFan op targets _ =>
    -- without an argument, all qudits are targets that were not measured
    let list := match targets with
      | some targets => targets.values
      | none => c.liveQudits.map Int.ofNat
    some
      { arguments := targets.toList.map .list
        required := [list]
        ranges := [(c.qudits, list)]
        targets := list
        lists := [list]
        operator := some (op, 1) }
  | .gateCustom op targets _ =>
    some
      { arguments := [.list targets]
        required := [targets.values]
        ranges := [(c.qudits, targets.values)]
        targets := targets.values
        lists := [targets.values]
        operator := some (op, targets.values.length) }
  | .qft | .tfq => none
  | .ctrl op controls targets _ =>
    some
      { arguments := [.indices controls, .indices targets]
        required := [controls.values, targets.values]
        ranges := [(c.qudits, controls.values), (c.qudits, targets.values)]
        controls := controls.values
        targets := targets.values
        lists := [controls.values, targets.values]
        operator := some (op, 1) }
  | .ctrlCustom op controls targets _ =>
    some
      { arguments := [.list controls, .list targets]
        required := [controls.values, targets.values]
        ranges := [(c.qudits, controls.values), (c.qudits, targets.values)]
        controls := controls.values
        targets := targets.values
        lists := [controls.values, targets.values]
        operator := some (op, targets.values.length) }
  | .cctrl op controls targets _ =>
    some
      { arguments := [.indices controls, .indices targets]
        required := [targets.values]
        ranges := [(c.dits, controls.values), (c.qudits, targets.values)]
        targets := targets.values
        lists := [controls.values, targets.values]
        operator := some (op, 1) }
  | .cctrlCustom op controls targets _ =>
    some
      { arguments := [.list controls, .list targets]
        required := [targets.values]
        ranges := [(c.dits, controls.values), (c.qudits, targets.values)]
        targets := targets.values
        lists := [controls.values, targets.values]
        operator := some (op, targets.values.length) }
  | .measureZ target dit _ =>
    some
      { arguments := [.list (.many [target]), .list (.many [dit])]
        required := []
        ranges := [(c.qudits, target.value?.toList), (c.dits, dit.value?.toList)]
        targets := target.value?.toList
        lists := []
        operator := none }
  | .measureV basis targets dit _ =>
    some
      { arguments := [.indices targets, .list (.many [dit])]
        required := [targets.values]
        ranges := [(c.qudits, targets.values), (c.dits, dit.value?.toList)]
        targets := targets.values
        lists := [targets.values]
        operator := some (basis, targets.values.length) }

/-- What has to be true of a call, in the order in which it counts. -/
def conditions [Scalar S] (c : Circuit S) (call : Call S) : Conditions :=
  match c.request? call with
  | some request => request.conditions c
  | none => [.unreserved]

/-- The conditions of a call, without their order. -/
theorem mem_conditions [Scalar S] {c : Circuit S} {call : Call S} {request : Request S}
    (h : c.request? call = some request) {condition : Condition} :
    condition ∈ c.conditions call ↔ condition ∈ request.arguments ∨
      (∃ list ∈ request.required, .nonempty list = condition) ∨
      (∃ range ∈ request.ranges, .inRange range.1 range.2 = condition) ∨
      condition = .live c (request.controls ++ request.targets) ∨
      (∃ list ∈ request.lists, .distinct list = condition) ∨
      condition = .disjoint request.controls request.targets ∨
      ∃ operator ∈ request.operator,
        condition = .operator c operator.1 operator.2 ∨ condition = .key c operator.1 := by
  unfold conditions
  rw [h]
  simp only [Request.conditions, Request.checked, List.mem_append, List.mem_map, List.mem_flatMap,
    List.mem_cons, List.not_mem_nil, or_false, Option.mem_toList, Option.mem_def, or_assoc]

/-! ## The checks, each with its condition -/

section Checks

variable {c : Circuit S}

theorem checkNonempty_settles (role : Role) (indices : List Int) :
    Settles (checkNonempty role indices) [.nonempty indices] := by
  refine .guard checkNonempty_eq_ok fun cause h => ?_
  unfold checkNonempty at h
  split at h <;> cases h
  exact ⟨rfl, rfl⟩

/-- A check that searches for an index settles that there is none. The index found is the one that is
written. -/
theorem settles_search {check : Except Cause Unit} {p : Int → Bool} {cause : Int → Cause}
    {condition : Condition} {indices : List Int} (hcheck : check = .ok () ↔ condition.holds)
    (hsearch : check = match indices.find? p with
      | some i => .error (cause i)
      | none => .ok ())
    (hkind : ∀ i, condition.kind = .located (cause i).family)
    (hplain : condition.plain? = (indices.find? p).bind fun i => (cause i).plain?) :
    Settles check [condition] := by
  refine .guard hcheck fun seen h => ?_
  rw [hsearch] at h
  rw [hplain]
  cases hfind : indices.find? p with
  | none =>
    rw [hfind] at h
    cases h
  | some i =>
    rw [hfind] at h
    cases h
    exact ⟨hkind i, rfl⟩

theorem checkQudits_settles (role : Role) (indices : List Int) :
    Settles (c.checkQudits role indices) [.inRange c.qudits indices] :=
  settles_search checkQudits_eq_ok rfl (fun _ => rfl) rfl

theorem checkDits_settles (indices : List Int) :
    Settles (c.checkDits indices) [.inRange c.dits indices] :=
  settles_search checkDits_eq_ok rfl (fun _ => rfl) rfl

theorem checkLive_settles (qudits : List Int) :
    Settles (c.checkLive qudits) [.live c qudits] :=
  settles_search checkLive_eq_ok rfl (fun _ => rfl) rfl

theorem checkDistinct_settles (role : Role) (indices : List Int) :
    Settles (checkDistinct role indices) [.distinct indices] := by
  refine .guard checkDistinct_eq_ok fun cause h => ?_
  unfold checkDistinct at h
  split at h <;> cases h
  exact ⟨rfl, rfl⟩

theorem checkDisjoint_settles (controls targets : List Int) :
    Settles (checkDisjoint controls targets) [.disjoint controls targets] := by
  refine .guard checkDisjoint_eq_ok fun cause h => ?_
  unfold checkDisjoint at h
  split at h <;> cases h
  exact ⟨rfl, rfl⟩

theorem checkQuantum_settles (controls targets : List Int) :
    Settles (c.checkQuantum controls targets)
      [.inRange c.qudits controls, .inRange c.qudits targets, .live c (controls ++ targets),
        .distinct controls, .distinct targets, .disjoint controls targets] :=
  (checkQudits_settles _ _).bind fun _ _ => (checkQudits_settles _ _).bind fun _ _ =>
    (checkLive_settles _).bind fun _ _ => (checkDistinct_settles _ _).bind fun _ _ =>
    (checkDistinct_settles _ _).bind fun _ _ => checkDisjoint_settles _ _

theorem checkClassical_settles (dits targets : List Int) :
    Settles (c.checkClassical dits targets)
      [.inRange c.dits dits, .inRange c.qudits targets, .live c targets, .distinct dits,
        .distinct targets] :=
  (checkDits_settles _).bind fun _ _ => (checkQudits_settles _ _).bind fun _ _ =>
    (checkLive_settles _).bind fun _ _ => (checkDistinct_settles _ _).bind fun _ _ =>
    checkDistinct_settles _ _

/-- The checks of a step without controls. -/
theorem checkQuantum_uncontrolled_settles (targets : List Int) :
    Settles (c.checkQuantum [] targets)
      [.inRange c.qudits targets, .live c targets, .distinct targets, .disjoint [] targets] :=
  (checkQudits_settles _ _).bind fun _ _ => (checkLive_settles _).bind fun _ _ =>
    (checkDistinct_settles _ _).bind fun _ _ => checkDisjoint_settles _ _

/-- A key is refused only where another operator has it. -/
theorem keyFor_error [Scalar S] {table : OperandTable S} {m : Operator S} {cause : Cause}
    (h : table.keyFor m = .error cause) :
    (¬ ∀ known, table.get? (table.keyOf m) = some known → known.same m = true) ∧
      cause.family = .integrityViolation ∧ cause.plain? = none := by
  constructor
  · intro hfree
    rw [OperandTable.keyFor_eq_ok.mpr ⟨rfl, hfree⟩] at h
    cases h
  · unfold OperandTable.keyFor at h
    dsimp only at h
    split at h
    · split at h <;> cases h
      exact ⟨rfl, rfl⟩
    · cases h

/-- The operator is looked at for its size first, and for its key after that. -/
theorem checkOperand_settles [Scalar S] (arg : OperatorArg S) (acted : Nat) :
    Settles (c.checkOperand arg acted) [.operator c arg acted, .key c arg] := by
  cases hx : c.checkOperand arg acted with
  | ok op =>
    obtain ⟨rfl, hshape, hkey⟩ := checkOperand_eq_ok.mp hx
    refine List.forall_mem_cons.mpr ⟨⟨op, rfl, hshape⟩, List.forall_mem_singleton.mpr ?_⟩
    rintro _ ⟨⟩
    exact hkey
  | error cause =>
    -- there is no operator, or one that is not square, or one of another size
    unfold checkOperand at hx
    split at hx
    · cases hx
      exact ⟨_, .here (by simp [Condition.operator]), rfl, rfl⟩
    · cases hx
      exact ⟨_, .here (by simp [Condition.operator]), rfl, rfl⟩
    · next op =>
      have hfits := Tensor.isSquare_and_rows_iff op (c.dim ^ acted)
      split at hx
      · next hsquare =>
        cases hx
        have hsquare : op.isSquare = false := by simpa using hsquare
        refine ⟨.operator c (.operator op) acted, .here ?_, rfl, ?_⟩
        · rintro ⟨_, ⟨⟩, hshape⟩
          simp [(hfits.mpr hshape).1] at hsquare
        · simp only [Condition.operator, hsquare, Bool.false_eq_true, if_false]
          rfl
      · next hsquare =>
        have hsquare : op.isSquare = true := by simpa using hsquare
        split at hx
        · next hrows =>
          cases hx
          refine ⟨.operator c (.operator op) acted, .here ?_, rfl, ?_⟩
          · rintro ⟨_, ⟨⟩, hshape⟩
            exact hrows (hfits.mpr hshape).2
          · simp only [Condition.operator, hsquare, if_true]
            rfl
        -- the size is right, so the operator is refused for its key
        · next hrows =>
          have hshape := hfits.mp ⟨hsquare, not_not.mp hrows⟩
          obtain ⟨hkey, hfamily, hplain⟩ := keyFor_error (map_eq_error.mp hx)
          refine ⟨.key c (.operator op), .later ⟨op, rfl, hshape⟩ (.here fun hall => ?_), ?_, ?_⟩
          · exact hkey (hall op rfl)
          · rw [hfamily]
            rfl
          · rw [hplain]
            rfl

/-! ## Arguments for indices -/

/-- Items are read just if they are integers, and then they are read as those. -/
theorem indicesOf_eq_ok {items : List IndexItem} {indices : List Int} :
    indicesOf items = .ok indices ↔
      (∀ item ∈ items, item.value?.isSome) ∧ indices = items.filterMap IndexItem.value? := by
  induction items generalizing indices with
  | nil =>
    simp only [indicesOf_nil, Except.ok.injEq, List.filterMap_nil, List.not_mem_nil, false_imp_iff,
      implies_true, true_and]
    exact eq_comm
  | cons item rest ih =>
    simp only [indicesOf, bind_eq_ok, pure_eq_ok, ih]
    cases item with
    | int value =>
      simp only [IndexItem.index, Except.ok.injEq, List.forall_mem_cons, IndexItem.value?,
        Option.isSome_some, true_and, List.filterMap_cons]
      constructor
      · rintro ⟨_, rfl, _, ⟨hrest, rfl⟩, rfl⟩
        exact ⟨hrest, rfl⟩
      · rintro ⟨hrest, rfl⟩
        exact ⟨_, rfl, _, ⟨hrest, rfl⟩, rfl⟩
    | foreign kind => simp [IndexItem.index, IndexItem.value?]
    | raising error => simp [IndexItem.index, IndexItem.value?]

/-- The fault of items is that of the first one that is no integer. -/
theorem plain?_of_indicesOf {items : List IndexItem} {fault : IndexFault}
    (h : indicesOf items = .error fault) : (IndexArg.many items).plain? = fault.plain? := by
  induction items with
  | nil => cases h
  | cons item rest ih =>
    unfold indicesOf at h
    cases item with
    | int value =>
      rcases bind_eq_error.mp h with hitem | ⟨_, -, h⟩
      · cases hitem
      rcases bind_eq_error.mp h with hrest | ⟨_, -, hpure⟩
      · exact ih hrest
      · cases hpure
    | foreign kind =>
      cases h
      rfl
    | raising error =>
      cases h
      rfl

theorem indices_eq_ok {arg : IndexArg} {indices : List Int} :
    arg.indices = .ok indices ↔ arg.IsIndices ∧ indices = arg.values := by
  cases arg with
  | one value kind =>
    simp only [IndexArg.indices, IndexArg.IsIndices, IndexArg.values, Except.ok.injEq, true_and]
    exact eq_comm
  | many items => exact indicesOf_eq_ok
  | foreign kind => simp [IndexArg.indices, IndexArg.IsIndices, IndexArg.IsList]
  | raising error => simp [IndexArg.indices, IndexArg.IsIndices, IndexArg.IsList]

theorem listed_eq_ok {arg : IndexArg} {indices : List Int} :
    arg.listed = .ok indices ↔ arg.IsList ∧ indices = arg.values := by
  cases arg with
  | one value kind => simp [IndexArg.listed, IndexArg.IsList]
  | many items => exact indicesOf_eq_ok
  | foreign kind => simp [IndexArg.listed, IndexArg.IsList]
  | raising error => simp [IndexArg.listed, IndexArg.IsList]

theorem plain?_of_indices {arg : IndexArg} {fault : IndexFault} (h : arg.indices = .error fault) :
    arg.plain? = fault.plain? := by
  cases arg with
  | many items => exact plain?_of_indicesOf h
  | one value kind => cases h
  | foreign kind | raising error =>
    cases h
    rfl

theorem plain?_of_listed {arg : IndexArg} {fault : IndexFault} (h : arg.listed = .error fault) :
    arg.plain? = fault.plain? := by
  cases arg with
  | many items => exact plain?_of_indicesOf h
  | one value kind | foreign kind | raising error =>
    cases h
    rfl

/-- Reading an argument settles what it has to be, and the rest goes on with what was read. -/
theorem settles_read {x : Except IndexFault α} {a : α} {condition : Condition} {rest : Conditions}
    {f : α → Except Cause β} (hkind : condition.kind = .located .invalidIndex)
    (hok : ∀ b, x = .ok b ↔ condition.holds ∧ b = a)
    (herror : ∀ fault, x = .error fault → condition.plain? = fault.plain?)
    (hf : condition.holds → Settles (f a) rest) :
    Settles (x.mapError .notIndices >>= f) (condition :: rest) := by
  cases x with
  | ok b =>
    obtain ⟨hholds, rfl⟩ := (hok b).mp rfl
    exact (hf hholds).cons_of_holds hholds
  | error fault =>
    have hnot : ¬ condition.holds := fun hholds => nomatch (hok a).mpr ⟨hholds, rfl⟩
    exact ⟨condition, .here hnot, hkind, herror fault rfl⟩

theorem settles_indices {arg : IndexArg} {rest : Conditions} {f : List Int → Except Cause β}
    (hf : Settles (f arg.values) rest) :
    Settles (readIndices arg.indices >>= f) (.indices arg :: rest) :=
  settles_read rfl (fun _ => indices_eq_ok) (fun _ => plain?_of_indices) fun _ => hf

theorem settles_list (arg : IndexArg) {rest : Conditions} {f : List Int → Except Cause β}
    (hf : arg.IsList → Settles (f arg.values) rest) :
    Settles (readIndices arg.listed >>= f) (.list arg :: rest) :=
  settles_read rfl (fun _ => listed_eq_ok) (fun _ => plain?_of_listed) hf

/-- Reading one item settles that it is an integer. -/
theorem settles_item {item : IndexItem} {rest : Conditions} {f : Int → Except Cause β}
    (hf : ∀ i, item = .int i → Settles (f i) rest) :
    Settles (item.index.mapError .notIndices >>= f) (.list (.many [item]) :: rest) := by
  cases item with
  | int i =>
    exact (hf i rfl).cons_of_holds (List.forall_mem_singleton.mpr rfl)
  | foreign kind | raising error =>
    exact ⟨_, .here (by simp [Condition.list, IndexArg.IsList, IndexItem.value?]), rfl, rfl⟩

end Checks

/-! ## The operations -/

section Operations

variable [Scalar S] {c : Circuit S}

theorem settles_planControlled_quantum (kind : GateKind) (op : OperatorArg S)
    (controls targets : List Int) (acted : Nat) (name : String) (arguments : Conditions) :
    Settles (c.planControlled .quantum kind op controls targets acted name)
      (Request.checked
        { arguments, required := [controls, targets],
          ranges := [(c.qudits, controls), (c.qudits, targets)], controls, targets,
          lists := [controls, targets], operator := some (op, acted) } c) :=
  (checkNonempty_settles _ _).bind fun _ _ => (checkNonempty_settles _ _).bind fun _ _ =>
    (checkQuantum_settles _ _).bind fun _ _ => (checkOperand_settles _ _).bind fun _ _ => .pure _

theorem settles_planControlled_classical (kind : GateKind) (op : OperatorArg S)
    (dits targets : List Int) (acted : Nat) (name : String) (arguments : Conditions) :
    Settles (c.planControlled .classical kind op dits targets acted name)
      (Request.checked
        { arguments, required := [targets], ranges := [(c.dits, dits), (c.qudits, targets)],
          targets, lists := [dits, targets], operator := some (op, acted) } c) :=
  -- no qudit controls another one, so none can be a control and a target
  (checkNonempty_settles _ _).bind fun _ _ => (checkClassical_settles _ _).bind fun _ _ =>
    .cons_of_holds (by simp [Condition.disjoint]) <|
    (checkOperand_settles _ _).bind fun _ _ => .pure _

/-- The checks of a gate without controls. -/
theorem settles_uncontrolled (kind : GateKind) (op : OperatorArg S) (targets : List Int)
    (acted increment : Nat) (name : String) (arguments : Conditions) :
    Settles (do
        checkNonempty .target targets
        c.checkQuantum [] targets
        let op ← c.checkOperand op acted
        return .gate kind op [] targets (c.nameFor op name) increment : Except Cause (Entry S))
      (Request.checked
        { arguments, required := [targets], ranges := [(c.qudits, targets)], targets,
          lists := [targets], operator := some (op, acted) } c) :=
  -- no controls are different ones, and none of them is a target
  (checkNonempty_settles _ _).bind fun _ _ => (checkQuantum_uncontrolled_settles _).bind fun _ _ =>
    (checkOperand_settles _ _).bind fun _ _ => .pure _

/-- A gate without controls whose list was found to have an item before it was read. -/
theorem settles_gate (op : OperatorArg S) (items : List IndexItem) (name : String)
    (hfew : items.length ≤ 3) :
    Settles (c.plan (.gate op items name)) (c.conditions (.gate op items name)) := by
  refine .cons_of_holds hfew ?_
  cases items with
  | nil =>
    -- all items of no list are integers
    exact ⟨.nonempty [], .later (List.forall_mem_nil _) (.here (not_not_intro rfl)), rfl, rfl⟩
  | cons item rest =>
    refine settles_list (.many (item :: rest)) fun hread => ?_
    have hne : (IndexArg.many (item :: rest)).values ≠ [] := by
      obtain ⟨i, hi⟩ := Option.isSome_iff_exists.mp (hread item List.mem_cons_self)
      simp [IndexArg.values, hi]
    have hplan := settles_uncontrolled (c := c)
      (jointKind (IndexArg.many (item :: rest)).values.length) op
      (IndexArg.many (item :: rest)).values (IndexArg.many (item :: rest)).values.length 1 name
    rw [checkNonempty_eq_ok.mpr hne] at hplan
    exact hplan _

theorem settles_measureZ (target dit : IndexItem) (name : String) :
    Settles (c.plan (.measureZ target dit name)) (c.conditions (.measureZ target dit name)) := by
  refine settles_list (.many [target]) fun _ => settles_item ?_
  rintro i rfl
  -- one qudit and one dit are no controls
  exact (checkQudits_settles _ _).bind fun _ _ => (checkDits_settles _).bind fun _ _ =>
    (checkLive_settles _).bind fun _ _ => .cons_of_holds (by simp [Condition.disjoint]) (.pure _)

theorem settles_measureV (basis : OperatorArg S) (targets : IndexArg) (dit : IndexItem)
    (name : String) :
    Settles (c.plan (.measureV basis targets dit name))
      (c.conditions (.measureV basis targets dit name)) := by
  refine settles_indices <| settles_item ?_
  rintro i rfl
  exact (checkNonempty_settles _ _).bind fun _ _ => (checkQudits_settles _ _).bind fun _ _ =>
    (checkDits_settles _).bind fun _ _ => (checkLive_settles _).bind fun _ _ =>
    (checkDistinct_settles _ _).bind fun _ _ => .cons_of_holds (by simp [Condition.disjoint]) <|
    (checkOperand_settles _ _).bind fun _ _ => .pure _

/-- The checks of an operation settle the conditions of its call. -/
theorem plan_settles (c : Circuit S) (call : Call S) (hfew : manyTargets? call = none) :
    Settles (c.plan call) (c.conditions call) := by
  cases call with
  | gate op items name => exact settles_gate op items name (by simpa [manyTargets?] using hfew)
  | gateFan op targets name =>
    cases targets with
    | none => exact settles_uncontrolled ..
    | some targets => exact settles_list _ fun _ => settles_uncontrolled ..
  | gateCustom op targets name => exact settles_list _ fun _ => settles_uncontrolled ..
  | qft | tfq => exact ⟨.unreserved, .here not_false, rfl, rfl⟩
  | ctrl op controls targets name =>
    exact settles_indices <| settles_indices <| settles_planControlled_quantum ..
  | ctrlCustom op controls targets name =>
    exact settles_list _ fun _ => settles_list _ fun _ => settles_planControlled_quantum ..
  | cctrl op controls targets name =>
    exact settles_indices <| settles_indices <| settles_planControlled_classical ..
  | cctrlCustom op controls targets name =>
    exact settles_list _ fun _ => settles_list _ fun _ => settles_planControlled_classical ..
  | measureZ target dit name => exact settles_measureZ target dit name
  | measureV basis targets dit name => exact settles_measureV basis targets dit name

/-- Only a gate has a condition on the number of its targets. -/
theorem conditions_of_manyTargets (c : Circuit S) (call : Call S) {count : Nat}
    (h : manyTargets? call = some count) :
    ∃ op items name, call = .gate op items name ∧ 3 < items.length ∧ count = items.length ∧
      FirstFailing (c.conditions call) (.few items) := by
  cases call with
  | gate op items name =>
    simp only [manyTargets?] at h
    split at h
    · next hmany =>
      cases h
      exact ⟨op, items, name, rfl, hmany, rfl, .here (Nat.not_le.mpr hmany)⟩
    · cases h
  | _ => cases h

/-- A call that is refused is a gate on too many qudits, or its first failing condition is that of the
cause. -/
theorem append_eq_error {call : Call S} {fault : CircuitFault} (h : c.append call = .error fault) :
    ∃ condition, FirstFailing (c.conditions call) condition ∧
      ((∃ op items name, call = .gate op items name ∧ 3 < items.length ∧ condition = .few items ∧
          fault = .manyTargets items.length) ∨
        ∃ cause, condition.kind = .located cause.family ∧ condition.plain? = cause.plain? ∧
          fault = .ofFailure (.atStep call.operation c.stepCount cause)) := by
  cases hmany : manyTargets? call with
  | some count =>
    unfold append at h
    rw [hmany] at h
    cases h
    obtain ⟨op, items, name, hcall, hthree, rfl, hfails⟩ := c.conditions_of_manyTargets call hmany
    exact ⟨_, hfails, .inl ⟨op, items, name, hcall, hthree, rfl, rfl⟩⟩
  | none =>
    have hsettles := c.plan_settles call hmany
    cases hplan : c.plan call with
    | ok entry =>
      rw [append_eq_ok.mpr ⟨entry, hmany, hplan, rfl⟩] at h
      cases h
    | error cause =>
      rw [append_of_plan_error hmany hplan] at h
      rw [hplan] at hsettles
      cases h
      obtain ⟨condition, hfails, hkind, hplain⟩ := hsettles
      exact ⟨condition, hfails, .inr ⟨cause, hkind, hplain, rfl⟩⟩

/-- Where all conditions of a call hold, it is accepted, and only there. -/
theorem exists_append_iff {call : Call S} :
    (∃ after, c.append call = .ok after) ↔ ∀ condition ∈ c.conditions call, condition.holds := by
  constructor
  · rintro ⟨after, h⟩
    obtain ⟨entry, hfew, hplan, -⟩ := append_eq_ok.mp h
    have hsettles := c.plan_settles call hfew
    rw [hplan] at hsettles
    exact hsettles
  · intro hall
    cases h : c.append call with
    | ok after => exact ⟨after, rfl⟩
    | error fault =>
      obtain ⟨condition, hfails, -⟩ := append_eq_error h
      exact absurd hall hfails.not_forall

/-- Where another error takes the place of a refusal, it is what is seen. -/
theorem append_of_plain {call : Call S} {condition : Condition} {plain : PlainFault}
    (hfails : FirstFailing (c.conditions call) condition) (hplain : condition.plain? = some plain) :
    c.append call = .error (.plain plain) := by
  cases h : c.append call with
  | ok after => exact absurd (exists_append_iff.mp ⟨after, h⟩) hfails.not_forall
  | error fault =>
    obtain ⟨other, hother, hcause⟩ := append_eq_error h
    obtain rfl := hfails.unique hother
    rcases hcause with ⟨op, items, name, -, -, rfl, rfl⟩ | ⟨cause, -, hsame, rfl⟩
    · cases hplain
    · exact congrArg Except.error (CircuitFault.ofFailure_of_plain (hsame.symm.trans hplain))

/-- A call is accepted just if its conditions hold. Otherwise the first one that fails decides the
error: it is of the class of the condition, unless another error takes its place. -/
theorem append_iff_conditions (c : Circuit S) (call : Call S) :
    ((∃ after, c.append call = .ok after) ↔ ∀ condition ∈ c.conditions call, condition.holds) ∧
      ∀ fault, c.append call = .error fault →
        ∃ condition, FirstFailing (c.conditions call) condition ∧
          match condition.plain? with
          | none => fault.refusalClass? = some condition.kind
          | some plain => fault = .plain plain := by
  refine ⟨exists_append_iff, fun fault h => ?_⟩
  obtain ⟨condition, hfails, hcause⟩ := append_eq_error h
  refine ⟨condition, hfails, ?_⟩
  rcases hcause with ⟨op, items, name, -, -, rfl, rfl⟩ | ⟨cause, hkind, hplain, rfl⟩
  · rfl
  · rw [hplain, CircuitFault.ofFailure, Failure.cause_atStep]
    cases cause.plain? with
    | none =>
      rw [hkind]
      rfl
    | some plain => rfl

/-- A matrix raises an error of its own where it is read as an operator, and an index of too many
digits is out of range. Neither error is of the class of the condition that fails. -/
theorem append_unclassed :
    let c : Circuit Float := empty 0 1 0 2 "" (fun _ => "") fun _ => 0
    let raising : Call Float := .gate (.raising (.other "RuntimeError")) [.int 0] ""
    let long : Call Float := .gate (.operator (.identity 2)) [.int (10 ^ Text.digitLimit)] ""
    (∃ condition fault, FirstFailing (c.conditions raising) condition ∧
        condition.kind = .located .shapeMismatch ∧ c.append raising = .error fault ∧
        fault = .plain (.raised "RuntimeError") ∧ fault.refusalClass? = none) ∧
      ∃ condition fault, FirstFailing (c.conditions long) condition ∧
        condition.kind = .located .invalidIndex ∧ c.append long = .error fault ∧
        fault = .plain .manyDigits ∧ fault.refusalClass? = none := by
  intro c raising long
  constructor
  · have hfails : FirstFailing (c.conditions raising)
        (.operator c (.raising (.other "RuntimeError")) 1) :=
      .later (by decide : 1 ≤ 3) <| .later (List.forall_mem_singleton.mpr rfl) <|
      .later (List.cons_ne_nil 0 []) <| .later (List.forall_mem_singleton.mpr (by decide)) <|
      .later nofun <| .later (List.pairwise_singleton _ 0) <| .later nofun <| .here nofun
    exact ⟨_, _, hfails, rfl, append_of_plain hfails rfl, rfl, rfl⟩
  · have hrange : ¬ InRange 1 (10 ^ Text.digitLimit) := by decide +kernel
    have hfind : [(10 ^ Text.digitLimit : Int)].find? (outside 1) = some (10 ^ Text.digitLimit) :=
      List.find?_cons_of_pos (by rwa [← Bool.not_eq_false, outside_eq_false_iff])
    have hfails : FirstFailing (c.conditions long) (.inRange 1 [10 ^ Text.digitLimit]) :=
      .later (by decide : 1 ≤ 3) <| .later (List.forall_mem_singleton.mpr rfl) <|
      .later (List.cons_ne_nil _ []) <| .here fun hall => hrange (List.forall_mem_singleton.mp hall)
    have hplain : (Condition.inRange 1 [10 ^ Text.digitLimit]).plain? = some .manyDigits := by
      unfold Condition.inRange
      rw [hfind]
      exact PlainFault.ofIntegers_eq_some.mpr ⟨_, List.mem_cons_self, by decide +kernel⟩
    exact ⟨_, _, hfails, rfl, append_of_plain hfails hplain, rfl, rfl⟩

end Operations

end Circuit

end QuditSim
