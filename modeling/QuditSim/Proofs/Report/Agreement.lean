import Mathlib.Data.List.Nodup
import QuditSim.Proofs.Circuit.Counts
import QuditSim.Proofs.Report.RoundTrip

/-!
# What is written and what is read agree

A report is written from the lists of a circuit and checked without them: the check reads the sort of
a step off the name of its kind, and the ranges off the numbers at the head of the report. Whatever
calls were tried on a circuit, with any names and any function that computes keys, the check passes
on each of its reports.

- `Report.NumbersSteps` says that the steps of a report are those of the accepted calls, in order
  and with their places as numbers, and `Report.numbersSteps_report` that they are.
- `Report.ListsOperands` says that each operator that a step refers to is found in the report, under
  an id of its own, and `Report.listsOperands_report` that it is.
- `Report.report_accepted` puts them together with the check.
-/

namespace QuditSim

namespace Report

open Circuit

variable {start : Circuit Float} (includeOperands : Bool)

/-! ## Steps -/

/-- The steps of a report are the accepted calls in order, each with its place as its number. -/
structure NumbersSteps (start : Circuit Float) (calls : List (Call Float)) (includeOperands : Bool)
    (entries : List Json) : Prop where
  /-- There are as many as the circuit counts, one for each accepted call. -/
  length_eq : entries.length = (start.attemptAll calls).stepCount ∧
    entries.length = (start.accepted calls).length
  /-- The number of a step is its place. -/
  number : ∀ (ip : Nat) (entry : Json), entries[ip]? = some entry → entry.get? "step" = some (.int ip)
  /-- A step describes what the accepted call at its place recorded. -/
  record : ∀ (ip : Nat) (entry : Json), entries[ip]? = some entry →
    ∃ step, start.RecordOf calls ip step ∧
      entry = (step.view (start.attemptAll calls).serial ip).entry includeOperands
  /-- A step refers to the operator of its call by the text of its key, if operators are asked for
  and the call has one. -/
  operand : ∀ (ip : Nat) (entry : Json) (call : Call Float), entries[ip]? = some entry →
    (start.accepted calls)[ip]? = some call → entry.get? "operand" = if includeOperands then
      call.operator?.map fun op => .string (operandId (start.operands.keyOf op)) else none

/-- A written step is that of the log at its place. -/
theorem getElem?_entries {c : Circuit Float} (hc : c.Ordered) {ip : Nat} {entry : Json}
    (h : (c.views.map (·.entry includeOperands))[ip]? = some entry) :
    ∃ step, c.log[ip]? = some step ∧ entry = (step.view c.serial ip).entry includeOperands := by
  rw [views_eq hc, List.getElem?_map, List.getElem?_mapIdx, Option.map_map] at h
  obtain ⟨step, hstep, rfl⟩ := Option.map_eq_some_iff.mp h
  exact ⟨step, hstep, rfl⟩

theorem numbersSteps_report (hstart : start.Indexed) (hlog : start.log = [])
    (calls : List (Call Float)) :
    NumbersSteps start calls includeOperands
      ((start.attemptAll calls).views.map (·.entry includeOperands)) := by
  have hindexed := hstart.attemptAll calls
  have hresolves := hstart.resolves_attemptAll hlog calls
  have hcount : ((start.attemptAll calls).views.map (·.entry includeOperands)).length =
      (start.attemptAll calls).log.length := by
    rw [views_eq hindexed.ordered, List.length_map, List.length_mapIdx]
  refine ⟨⟨hcount.trans hindexed.ordered.length_log, hcount.trans hresolves.length_eq.symm⟩, ?_, ?_,
    ?_⟩
  · intro ip entry hentry
    obtain ⟨step, -, rfl⟩ := getElem?_entries includeOperands hindexed.ordered hentry
    exact StepView.get?_step _ _
  · intro ip entry hentry
    obtain ⟨step, hstep, rfl⟩ := getElem?_entries includeOperands hindexed.ordered hentry
    obtain ⟨hip, rfl⟩ := List.getElem?_eq_some_iff.mp hstep
    exact ⟨_, recordOf_log hstart.ordered hlog calls ip hip, rfl⟩
  · intro ip entry call hentry hcall
    obtain ⟨step, hstep, rfl⟩ := getElem?_entries includeOperands hindexed.ordered hentry
    obtain ⟨hip, rfl⟩ := List.getElem?_eq_some_iff.mp hstep
    obtain ⟨hip', rfl⟩ := List.getElem?_eq_some_iff.mp hcall
    obtain ⟨hkeys, -⟩ := hresolves.get hip' hip
    have hkeyOf := (extends_attemptAll hstart.ordered calls).keyOf_eq
    rw [StepView.get?_operand]
    show (if includeOperands then
      (start.attemptAll calls).log[ip].keys.head?.map fun key => Json.string (operandId key)
      else none) = _
    rw [List.get_eq_getElem, List.get_eq_getElem, hkeyOf] at hkeys
    rw [hkeys, Option.head?_toList, Option.map_map]
    rfl

/-! ## Operators -/

/-- The operators of a report have ids of their own, and each operator that a step refers to is
among them. -/
structure ListsOperands (c : Circuit Float) (entries : List Json) (members : List (String × Json)) :
    Prop where
  /-- The ids are the texts of the keys, in the order of first use. -/
  ids_eq : members.map Prod.fst = c.operands.keys.map operandId
  /-- No key occurs twice. -/
  keys_nodup : c.operands.keys.Nodup
  /-- No id occurs twice. -/
  ids_nodup : (members.map Prod.fst).Nodup
  /-- Different keys have different ids. -/
  ids_apart : ∀ key ∈ c.operands.keys, ∀ other ∈ c.operands.keys, key ≠ other →
    operandId key ≠ operandId other
  /-- What a step refers to is the id of a member, which describes the operator of the step. -/
  found : ∀ (ip : Nat) (entry id : Json), entries[ip]? = some entry →
    entry.get? "operand" = some id → ∃ step key op, c.log[ip]? = some step ∧
      step.keys.head? = some key ∧ c.operands.get? key = some op ∧ id = .string (operandId key) ∧
      members.lookup (operandId key) = some op.encoded

/-- Under the text of a key there is the description of what a table has under the key. -/
theorem lookup_described (entries : List (Int × Operator Float)) (key : Int) :
    (entries.map fun (key, op) => (operandId key, op.encoded)).lookup (operandId key) =
      (entries.lookup key).map Operator.encoded := by
  induction entries with
  | nil => rfl
  | cons entry entries ih =>
    obtain ⟨known, op⟩ := entry
    rw [List.map_cons, List.lookup_cons, List.lookup_cons, ih]
    by_cases hkey : key = known
    · subst hkey
      simp
    · rw [beq_false_of_ne hkey, beq_false_of_ne (operandId_injective.ne hkey)]

/-- A key of a table leads to an operator. -/
theorem exists_of_mem_keys {table : OperandTable Float} {key : Int} (h : key ∈ table.keys) :
    ∃ op, table.get? key = some op := by
  rw [← OperandTable.contains_iff_mem_keys] at h
  exact Option.isSome_iff_exists.mp h

theorem listsOperands_report {c : Circuit Float} (hc : c.Indexed) :
    ListsOperands c (c.views.map (·.entry true))
      (c.operands.entries.map fun (key, op) => (operandId key, op.encoded)) := by
  have hids : (c.operands.entries.map fun (key, op) => (operandId key, op.encoded)).map Prod.fst =
      c.operands.keys.map operandId := by
    rw [OperandTable.keys, List.map_map, List.map_map]
    rfl
  have hkeys : c.operands.keys.Nodup := by
    rw [hc.keys_eq]
    exact nodup_eraseDups _
  refine ⟨hids, hkeys, ?_, fun key _ other _ => operandId_injective.ne, ?_⟩
  · rw [hids]
    exact List.Nodup.map operandId_injective hkeys
  · intro ip entry id hentry hid
    obtain ⟨step, hstep, rfl⟩ := getElem?_entries true hc.ordered hentry
    rw [StepView.get?_operand, if_pos rfl] at hid
    obtain ⟨key, hkey, rfl⟩ := Option.map_eq_some_iff.mp hid
    -- the key of a step of the log is one of the table
    have hmem : key ∈ c.operands.keys := by
      rw [hc.keys_eq, List.mem_eraseDups]
      exact List.mem_flatMap.mpr
        ⟨step, List.mem_of_getElem? hstep, List.mem_of_mem_head? hkey⟩
    obtain ⟨op, hop⟩ := exists_of_mem_keys hmem
    refine ⟨step, key, op, hstep, hkey, hop, rfl, ?_⟩
    rw [lookup_described]
    exact congrArg (Option.map Operator.encoded) hop

/-! ## Whole reports -/

/-- Whatever is asked of a new circuit, with any names and any function that computes keys: each of
its reports passes the check, whatever metadata it has. Its steps are those of the accepted calls,
numbered in order. If operators are asked for, then each one that a step refers to is found under its
id, and different operators of the circuit have different ids; otherwise no step refers to any. -/
theorem report_accepted [Capacity] {serial : Nat} {qudits dits dim : Argument} {name : String}
    {namerFor : Nat → Except ExtentFault (Operator Float → String)} {keyOf : Operator Float → Int}
    (hstart : create? serial qudits dits dim name namerFor keyOf = .ok start)
    (calls : List (Call Float)) (metadata : List (String × Json)) (includeOperands : Bool) :
    let c := start.attemptAll calls
    let report := c.report metadata includeOperands
    validate report = .ok () ∧
      ∃ entries, report.get? "steps" = some (.array entries) ∧
        NumbersSteps start calls includeOperands entries ∧
        if includeOperands then
          ∃ members, report.get? "operands" = some (.object members) ∧
            ListsOperands c entries members
        else report.get? "operands" = none := by
  intro c report
  obtain ⟨hqudits, hdim, -, -⟩ := extents_of_create? hstart
  have hc : c.WellFormed := wellFormed_attemptAll hstart calls
  obtain ⟨n, m, d, namer, rfl⟩ := create?_eq_ok hstart
  have hempty := indexed_empty serial n m d name namer keyOf
  have hblank : c.blank = empty serial n m d name namer keyOf := blank_attemptAll _ calls
  -- the head of the report has the numbers with which the circuit was made
  have hquditsOf : c.qudits = n := congrArg Circuit.qudits hblank
  have hdimOf : c.dim = d := congrArg Circuit.dim hblank
  refine ⟨?_, _, rfl, numbersSteps_report includeOperands hempty rfl calls, ?_⟩
  · rw [← hquditsOf] at hqudits
    rw [← hdimOf] at hdim
    exact validate_eq_ok.mpr (reportLayout_report metadata includeOperands hc hqudits hdim)
  · cases includeOperands with
    | true => exact ⟨_, rfl, listsOperands_report (hempty.attemptAll calls)⟩
    | false => cases metadata <;> rfl

section

attribute [local instance] Capacity.common

/-- Two gates with keys below zero and a measurement that is refused give a report of two steps,
which refer to the two operators of the report. -/
theorem report_accepted_pair :
    let keyOf (op : Operator Float) : Int := -op.entries.size
    let start : Circuit Float := empty 0 2 1 2 "pair" (fun _ => "gate") keyOf
    let calls : List (Call Float) :=
      [.gate (.operator (.identity 2)) [.int 0] "", .measureZ (.int 5) (.int 0) "",
        .gate (.operator (.identity 4)) [.int 1, .int 0] "swap"]
    let report := (start.attemptAll calls).report [("by", .null)] true
    create? 0 (.int 2) (.int 1) (.int 2) "pair" (fun _ => .ok fun _ => "gate") keyOf = .ok start ∧
      (start.accepted calls).length = 2 ∧ validate report = .ok () ∧
      ∃ entries, report.get? "steps" = some (.array entries) ∧
        NumbersSteps start calls true entries ∧
        ∃ members, report.get? "operands" = some (.object members) ∧
          members.map Prod.fst = ["-000000000000004", "-000000000000010"] ∧
          ListsOperands (start.attemptAll calls) entries members := by
  intro keyOf start calls report
  have hstart : create? 0 (.int 2) (.int 1) (.int 2) "pair" (fun _ => .ok fun _ => "gate") keyOf =
      .ok start := rfl
  obtain ⟨hvalid, entries, hsteps, hnumbers, hoperands⟩ :=
    report_accepted hstart calls [("by", .null)] true
  rw [if_pos rfl] at hoperands
  obtain ⟨members, hmembers, hlists⟩ := hoperands
  refine ⟨hstart, rfl, hvalid, entries, hsteps, hnumbers, members, hmembers, ?_, hlists⟩
  rw [hlists.ids_eq]
  decide +kernel

end

end Report

end QuditSim
