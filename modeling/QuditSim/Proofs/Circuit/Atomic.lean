import QuditSim.Proofs.Circuit.Acceptance
import QuditSim.Proofs.Circuit.Planned

/-!
# Appending a step container by container

`Circuit.append` answers with a new circuit or with a fault. A circuit that is kept in one place
is changed in several steps instead: the table of operators first, then the marks of measured
qudits, the records, the order and the counts, each of them by itself, and storing an operator or
setting a mark can fail when others were written already. `Circuit.perform` appends a step in this
way, and what was written before a failure stays written.

- `Circuit.outcome_perform`: nothing is written by a call that fails, and nothing fails once the
  checks are passed, so `perform` and `append` are the same.
- `Circuit.perform_atomic`: a refused call leaves the circuit as it was, and an accepted one adds
  one step to what was there.
- `Circuit.perform_unplaced` are refusals that do not say where they were raised.
-/

namespace QuditSim

open Fallible

/-- What can stop a call that changes a circuit in place. -/
inductive RecordingFault where
  /-- The checks refuse the call. -/
  | refused (fault : CircuitFault)
  /-- The table of operators refuses to store one. -/
  | unstored (cause : Cause)
  /-- There is no mark for a qudit. -/
  | noMark (q : Int)

/-- An error says in which operation and at which step it was raised. -/
def RecordingFault.Placed (fault : RecordingFault) (operation : String) (step : Nat) : Prop :=
  ∃ cause, fault = .refused (.located (.atStep operation step cause))

/-- Computations that change a circuit in place and can fail. What was changed before a failure
stays changed. -/
abbrev Recording (S α : Type) : Type := ExceptT RecordingFault (StateM (Circuit S)) α

/-- The value or the fault that a recording ends with, and the circuit after it. -/
def Recording.outcome {S α : Type} (x : Recording S α) (c : Circuit S) :
    Except RecordingFault α × Circuit S :=
  x.run.run c

namespace Circuit

variable {S : Type}

/-! ## Writing -/

/-- Stores an operator and answers with its key. The table looks the key up once more. -/
def store [Scalar S] (op : Operator S) : Recording S Int := do
  let c ← get
  match c.operands.register op with
  | .error cause => throw (.unstored cause)
  | .ok (key, operands) =>
    set { c with operands }
    return key

/-- The place that an index names among a number of items: from the front, or from the end if it
is negative. -/
def place? (count : Nat) (i : Int) : Option Int :=
  if 0 ≤ i ∧ i < count then some i
  else if -count ≤ i ∧ i < 0 then some (i + count)
  else none

/-- Marks a qudit as measured. -/
def mark (q : Int) : Recording S Unit := do
  let c ← get
  match place? c.qudits q with
  | none => throw (.noMark q)
  | some q => set { c with measured := c.measured ++ [q] }

/-- Stores the basis of a measurement, if it has one of its own. -/
def storeBasis [Scalar S] : Option (Operator S) → Recording S (List Int)
  | some basis => do return [← store basis]
  | none => return []

/-- Writes an entry, one container after the other. -/
def record [Scalar S] : Entry S → Recording S Unit
  | .gate kind op controls targets name increment => do
    let key ← store op
    modify fun c => { c with gates := c.gates ++ [⟨kind, key, controls, targets, name⟩] }
    modify fun c => { c with order := c.order ++ [.gate] }
    modify fun c => { c with gateCounts := c.gateCounts.add name increment }
  | .measurement kind basis targets dit name => do
    let keys ← storeBasis basis
    targets.forM mark
    modify fun c => { c with measurements := c.measurements ++ [⟨kind, keys, targets, dit, name⟩] }
    modify fun c => { c with order := c.order ++ [.measurement] }
    modify fun c => { c with measureCounts := c.measureCounts.add name 1 }

/-- Appends the step that a call asks for, in place. -/
def perform [Scalar S] (call : Call S) : Recording S Unit := do
  match manyTargets? call with
  | some count => throw (.refused (.manyTargets count))
  | none =>
    let c ← get
    match c.plan call with
    | .ok entry => record entry
    | .error cause => throw (.refused (.ofFailure (.atStep call.operation c.stepCount cause)))

/-! ## Writing what was checked -/

section Outcomes

variable {α β : Type} {c c' : Circuit S}

theorem outcome_get : (get : Recording S (Circuit S)).outcome c = (.ok c, c) := rfl

/-- A sequence goes on from where its first part ended. -/
theorem outcome_bind {x : Recording S α} {f : α → Recording S β} {a : α}
    (h : x.outcome c = (.ok a, c')) : (x >>= f).outcome c = (f a).outcome c' := by
  unfold Recording.outcome at h ⊢
  rw [ExceptT.run_bind, StateT.run_bind, h]
  rfl

theorem outcome_get_bind {f : Circuit S → Recording S β} :
    (get >>= f).outcome c = (f c).outcome c :=
  outcome_bind outcome_get

theorem place?_of_inRange {count : Nat} {i : Int} (h : InRange count i) :
    place? count i = some i := if_pos h

/-- Marks are set for qudits that are there. -/
theorem outcome_forM_mark {targets : List Int} (h : ∀ q ∈ targets, InRange c.qudits q) :
    (targets.forM mark : Recording S Unit).outcome c =
      (.ok (), { c with measured := c.measured ++ targets }) := by
  induction targets generalizing c with
  | nil =>
    rw [List.append_nil]
    rfl
  | cons q rest ih =>
    obtain ⟨hq, hrest⟩ := List.forall_mem_cons.mp h
    have hmark : (mark q).outcome c = (.ok (), { c with measured := c.measured ++ [q] }) := by
      unfold mark
      rw [outcome_get_bind, place?_of_inRange hq]
      rfl
    show (mark q >>= fun _ => rest.forM mark).outcome c = _
    rw [outcome_bind hmark, ih (c := { c with measured := c.measured ++ [q] }) hrest,
      List.append_assoc, List.singleton_append]

variable [Scalar S]

/-- An operator is stored where its key is free or its own. -/
theorem outcome_store {op : Operator S} {k : Nat} (h : c.Storable op k) :
    (store op).outcome c =
      (.ok (c.operands.keyOf op), { c with operands := c.operands.insert op }) := by
  have hkey : c.operands.keyFor op = .ok (c.operands.keyOf op) :=
    OperandTable.keyFor_eq_ok.mpr ⟨rfl, h.2⟩
  unfold store
  rw [outcome_get_bind, OperandTable.register, hkey]
  rfl

theorem outcome_storeBasis {basis : Option (Operator S)}
    (h : ∀ op ∈ basis, ∃ k, c.Storable op k) :
    (storeBasis basis).outcome c =
      (.ok (basis.map c.operands.keyOf).toList,
        { c with operands := basis.elim c.operands c.operands.insert }) := by
  cases basis with
  | none => rfl
  | some op =>
    obtain ⟨k, hop⟩ := h op rfl
    exact outcome_bind (outcome_store hop)

/-- Nothing fails while a sound entry is written. -/
theorem outcome_record {entry : Entry S} (h : c.Sound entry) :
    (record entry).outcome c = (.ok (), c.commit entry) := by
  cases entry with
  | gate kind op controls targets name increment =>
    obtain ⟨-, -, -, -, hop, -⟩ := h
    exact outcome_bind (outcome_store hop)
  | measurement kind basis targets dit name =>
    have htargets := h.1
    have hbasis : ∀ op ∈ basis, ∃ k, c.Storable op k := h.storable
    -- the basis is stored before the marks are set, and neither can fail
    have hmarks := outcome_forM_mark
      (c := { c with operands := basis.elim c.operands c.operands.insert }) htargets.inRange
    unfold record
    rw [outcome_bind (outcome_storeBasis hbasis), outcome_bind hmarks]
    cases basis <;> rfl

/-- A call in place ends as `append` says: with the longer circuit, or with the fault and the
circuit as it was. -/
theorem outcome_perform (c : Circuit S) (call : Call S) :
    (perform call).outcome c =
      match c.append call with
      | .ok after => (.ok (), after)
      | .error fault => (.error (.refused fault), c) := by
  unfold perform append
  cases hmany : manyTargets? call with
  | some count => rfl
  | none =>
    dsimp only
    rw [outcome_get_bind]
    cases hplan : c.plan call with
    | ok entry => exact outcome_record (sound_of_plan hmany hplan)
    | error cause => rfl

end Outcomes

/-! ## What a call changes -/

/-- A circuit records one step more than another one, behind all that the other one has. -/
structure AddsStep (c c' : Circuit S) (step : Step) : Prop where
  /-- The sort of the step is noted last. -/
  order : c'.order = c.order ++ [step.kind]
  /-- The gates are kept, and the step comes last if it is one. -/
  gates : c'.gates = c.gates ++ step.gate?.toList
  /-- The measurements are kept, and the step comes last if it is one. -/
  measurements : c'.measurements = c.measurements ++ step.measure?.toList
  /-- The marks are kept, and the qudits that the step measures are marked besides. -/
  measured : c'.measured = c.measured ++ step.retired
  /-- The operators are kept under their keys, in their order. -/
  operands : c.operands.entries <+: c'.operands.entries
  /-- Extents, name and the sources of names and keys are the same. -/
  frame : c'.qudits = c.qudits ∧ c'.dits = c.dits ∧ c'.dim = c.dim ∧ c'.name = c.name ∧
    c'.namer = c.namer ∧ c'.operands.keyOf = c.operands.keyOf

theorem AddsStep.stepCount_eq {c c' : Circuit S} {step : Step} (h : c.AddsStep c' step) :
    c'.stepCount = c.stepCount + 1 := by
  simp [stepCount, h.order]

/-- Storing an operator changes nothing in front of it. -/
theorem prefix_insert (table : OperandTable S) (op : Operator S) :
    table.entries <+: (table.insert op).entries := by
  simp only [OperandTable.insert]
  split
  · exact List.prefix_rfl
  · exact List.prefix_append _ _

theorem addsStep_commit (c : Circuit S) (entry : Entry S) :
    c.AddsStep (c.commit entry) (c.stepOf entry) := by
  have hkeyOf := c.keyOf_commit entry
  cases entry with
  | gate kind op controls targets name increment =>
    exact ⟨rfl, rfl, (List.append_nil _).symm, (List.append_nil _).symm,
      prefix_insert c.operands op, rfl, rfl, rfl, rfl, rfl, hkeyOf⟩
  | measurement kind basis targets dit name =>
    refine ⟨rfl, (List.append_nil _).symm, rfl, rfl, ?_, rfl, rfl, rfl, rfl, rfl, hkeyOf⟩
    cases basis with
    | none => exact List.prefix_rfl
    | some op => exact prefix_insert c.operands op

/-- A call in place that fails leaves the circuit as it was. The first of its conditions that fails
decides the error. It says in which operation and at which step it was raised, unless it is that of a
gate on more than three qudits, or an error without a place takes its place. A call that succeeds adds
one step to what there was. -/
theorem perform_atomic [Scalar S] (c : Circuit S) (call : Call S) :
    match (perform call).outcome c with
    | (.ok (), after) => after.stepCount = c.stepCount + 1 ∧ ∃ step, c.AddsStep after step
    | (.error fault, after) =>
      after = c ∧ ∃ condition, FirstFailing (c.conditions call) condition ∧
        match condition.plain? with
        | none =>
          (∃ op items name, call = .gate op items name ∧ 3 < items.length ∧
            fault = .refused (.manyTargets items.length)) ∨
          fault.Placed call.operation c.stepCount
        | some plain => fault = .refused (.plain plain) := by
  rw [outcome_perform]
  cases happend : c.append call with
  | ok after =>
    obtain ⟨entry, -, -, rfl⟩ := append_eq_ok.mp happend
    have hadds := c.addsStep_commit entry
    exact ⟨hadds.stepCount_eq, _, hadds⟩
  | error fault =>
    obtain ⟨condition, hfails, hcause⟩ := append_eq_error happend
    refine ⟨rfl, condition, hfails, ?_⟩
    rcases hcause with ⟨op, items, name, hcall, hmany, rfl, rfl⟩ | ⟨cause, -, hplain, rfl⟩
    · exact .inl ⟨op, items, name, hcall, hmany, rfl⟩
    · rw [hplain, CircuitFault.ofFailure, Failure.cause_atStep]
      cases cause.plain? with
      | none => exact .inr ⟨cause, rfl⟩
      | some plain => rfl

/-- A square matrix of the wrong size is refused without a place, behind indices that are in order,
where the right size has too many digits to be written. -/
theorem append_of_long_size [Scalar S] {c : Circuit S} {op : Operator S} {targets : List Int}
    (htargets : TargetList c.qudits targets) (hlive : ∀ q ∈ targets, q ∉ c.measured)
    (hsquare : op.isSquare = true) (hrows : op.rows ≠ c.dim ^ targets.length)
    (hlong : 10 ^ Text.digitLimit ≤ c.dim ^ targets.length) (name : String) :
    c.append (.gateCustom (.operator op) (.ofList targets) name) = .error (.plain .manyDigits) := by
  have hread : (IndexArg.ofList targets).listed = .ok targets := indicesOf_map_int targets
  obtain ⟨hlist, hvalues⟩ := listed_eq_ok.mp hread
  rw [hvalues] at htargets hlive hrows hlong
  have hshape : ¬ ∃ other, OperatorArg.operator op = .operator other ∧
      other.shape = [c.dim ^ (IndexArg.ofList targets).values.length,
        c.dim ^ (IndexArg.ofList targets).values.length] := by
    rintro ⟨_, ⟨⟩, hshape⟩
    exact hrows ((Tensor.isSquare_and_rows_iff _ _).mpr hshape).2
  have hfails : FirstFailing (c.conditions (.gateCustom (.operator op) (.ofList targets) name))
      (.operator c (.operator op) (IndexArg.ofList targets).values.length) :=
    .later hlist <| .later htargets.ne_nil <| .later htargets.inRange <| .later hlive <|
    .later htargets.nodup <| .later nofun <| .here hshape
  refine append_of_plain hfails ?_
  simp only [Condition.operator, hsquare, if_true]
  exact PlainFault.ofIntegers_eq_some.mpr ⟨_, List.mem_of_getLast? rfl, hlong⟩

/-- A matrix raises an error of its own where it is read as an operator, and a matrix of one row is
refused for qudits whose joint dimension has too many digits to be written. Neither error says where
it was raised. -/
theorem perform_unplaced :
    let c : Circuit Float := empty 0 2151 0 100 "" (fun _ => "") fun _ => 0
    let raising : Call Float := .gate (.raising (.other "RuntimeError")) [.int 0] ""
    let small : Call Float :=
      .gateCustom (.operator (.identity 1)) (.ofList ((List.range 2151).map Int.ofNat)) ""
    (∃ fault, (perform raising).outcome c = (.error fault, c) ∧
        fault = .refused (.plain (.raised "RuntimeError")) ∧ ¬ fault.Placed "gate" 0) ∧
      ∃ fault, (perform small).outcome c = (.error fault, c) ∧
        fault = .refused (.plain .manyDigits) ∧ ¬ fault.Placed "gate_custom" 0 := by
  intro c raising small
  refine ⟨⟨_, rfl, rfl, nofun⟩, _, ?_, rfl, nofun⟩
  have hlength : ((List.range 2151).map Int.ofNat).length = 2151 := by simp
  have htargets : TargetList c.qudits ((List.range 2151).map Int.ofNat) := by
    refine ⟨by simp, ?_, fun q hq => ?_⟩
    · exact List.pairwise_map.mpr (List.nodup_range.imp fun hne heq => hne (Int.ofNat_inj.mp heq))
    · obtain ⟨i, hi, rfl⟩ := List.mem_map.mp hq
      exact ⟨Int.natCast_nonneg i, Int.ofNat_lt.mpr (List.mem_range.mp hi)⟩
  have happend : c.append small = .error (.plain .manyDigits) := by
    -- the joint dimension has 4303 digits
    refine append_of_long_size htargets (fun _ _ => List.not_mem_nil) rfl ?_ ?_ ""
    · rw [hlength]
      decide +kernel
    · rw [hlength]
      decide +kernel
  rw [outcome_perform, happend]

end Circuit

end QuditSim
