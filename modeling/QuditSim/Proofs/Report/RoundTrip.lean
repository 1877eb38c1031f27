import QuditSim.Proofs.Report.Calls
import QuditSim.Proofs.Report.Operands
import QuditSim.Proofs.Report.Written

/-!
# Circuits rebuilt from their reports

A report with operators is read step by step, and each step is asked for again. Of the report of a
circuit, the steps are read as the calls of the circuit's history, on a circuit without steps that
has the same extents; so the same circuit comes of it. It is another one only in the number that
tells circuits apart.

- `Report.callOf_written`: a step that was written is read as the call for its entry.
- `Report.rebuild_report`: a circuit is rebuilt from its report, whatever was asked of it before.
-/

namespace QuditSim

open Fallible

/-! ## Operators that can be written -/

/-- Signed words of 64 bits hold the extents of the operator that a call is given, as they do for
every tensor that a machine holds. -/
def Call.Held {S : Type} (call : Call S) : Prop :=
  ∀ op ∈ call.operator?, ∀ n ∈ op.shape, n < 2 ^ 63

namespace OperandTable

/-- Every operator of a table is a square matrix that can be written and read. -/
def Writable {S : Type} (table : OperandTable S) : Prop :=
  ∀ entry ∈ table.entries, ∃ n < 2 ^ 63, entry.2.shape = [n, n]

theorem Writable.insert {S : Type} {table : OperandTable S} (h : table.Writable) {op : Operator S}
    {n : Nat} (hn : n < 2 ^ 63) (hshape : op.shape = [n, n]) : (table.insert op).Writable := by
  unfold OperandTable.insert
  dsimp only
  split
  · exact h
  · intro entry hentry
    rcases List.mem_append.mp hentry with hold | hnew
    · exact h entry hold
    · rw [List.mem_singleton.mp hnew]
      exact ⟨n, hn, hshape⟩

end OperandTable

namespace Circuit

variable {S : Type} {c : Circuit S}

theorem writable_commit {entry : Entry S} (h : c.operands.Writable)
    (hentry : ∀ op ∈ entry.operator?, ∃ n < 2 ^ 63, op.shape = [n, n]) :
    (c.commit entry).operands.Writable := by
  cases entry with
  | gate kind op controls targets name increment =>
    obtain ⟨n, hn, hshape⟩ := hentry op rfl
    exact h.insert hn hshape
  | measurement kind basis targets dit name =>
    cases basis with
    | none => exact h
    | some op =>
      obtain ⟨n, hn, hshape⟩ := hentry op rfl
      exact h.insert hn hshape

variable [Scalar S]

theorem writable_attemptAll (h : c.operands.Writable) {calls : List (Call S)}
    (hcalls : ∀ call ∈ calls, call.Held) : (c.attemptAll calls).operands.Writable := by
  refine attemptAll_keeps (P := fun c => c.operands.Writable) ?_ h
  intro c hc call hcall entry hsound hplanned
  refine writable_commit hc fun op hop => ?_
  obtain ⟨k, hshape, -⟩ := hsound.storable op hop
  have hheld := hcalls call hcall op (hplanned.operator? op hop)
  rw [hshape] at hheld
  exact ⟨_, hheld _ List.mem_cons_self, hshape⟩

/-! ## What steps leave as it is -/

/-- The circuit as it was before its first step. -/
def blank {S : Type} (c : Circuit S) : Circuit S :=
  empty c.serial c.qudits c.dits c.dim c.name c.namer c.operands.keyOf

theorem blank_commit {S : Type} (c : Circuit S) (entry : Entry S) :
    (c.commit entry).blank = c.blank := by
  unfold blank
  rw [keyOf_commit]
  cases entry <;> rfl

theorem blank_attemptAll (c : Circuit S) (calls : List (Call S)) :
    (c.attemptAll calls).blank = c.blank :=
  attemptAll_keeps (P := fun after => after.blank = c.blank)
    (fun before h _ _ entry _ _ => (blank_commit before entry).trans h) rfl

/-- The usual source of names does not tell equal operators apart. -/
theorem namer_eq_of_same [Capacity] {d : Nat} {namer : Operator Float → String}
    (h : standardNamer d = .ok namer) (a b : Operator Float) (hab : a.same b = true) :
    namer a = namer b := by
  simp only [standardNamer, bind_eq_ok, pure_eq_ok] at h
  obtain ⟨-, -, rfl⟩ := h
  exact GateLibrary.nameOf_eq_of_same _ hab

/-- A circuit with another number to tell it by. -/
def renumbered {S : Type} (c : Circuit S) (serial : Nat) : Circuit S := { c with serial }

/-- No call looks at the number of its circuit. -/
theorem append_renumbered (c : Circuit S) (serial : Nat) (call : Call S) :
    (c.renumbered serial).append call = (c.append call).map (renumbered · serial) := by
  have hplan : (c.renumbered serial).plan call = c.plan call := by
    cases call <;> rfl
  unfold append
  rw [hplan]
  cases manyTargets? call with
  | some count => rfl
  | none =>
    cases c.plan call with
    | error cause => rfl
    | ok entry => cases entry <;> rfl

theorem appendAll_renumbered (c : Circuit S) (serial : Nat) (calls : List (Call S)) :
    (c.renumbered serial).appendAll calls = (c.appendAll calls).map (renumbered · serial) := by
  induction calls generalizing c with
  | nil => rfl
  | cons call calls ih =>
    unfold appendAll at ih ⊢
    rw [List.foldlM_cons, List.foldlM_cons, append_renumbered]
    cases c.append call with
    | error fault => rfl
    | ok c => exact ih c

end Circuit

namespace Report

open Circuit

/-! ## Steps that are read -/

theorem reads_entry (view : StepView) (includeOperands : Bool) :
    Reads (view.entry includeOperands) view.step.kindName view.step.controls view.step.targets
      view.step.dit? view.step.name where
  kind_eq := StepView.get?_type _ _
  controls_eq := by
    rw [StepView.get?_controls]
    cases view.step.controls <;> rfl
  targets_eq := StepView.get?_targets _ _
  dit_eq := by
    rw [StepView.get?_dit]
    cases view.step.dit? <;> rfl
  name_eq := StepView.get?_name _ _

/-- The operators of a table under the texts of their keys. -/
def operandsOf (table : OperandTable Float) : Operands :=
  table.entries.map fun (key, op) => (operandId key, op)

variable {c : Circuit Float}

/-- A written step names the operator under its key. -/
theorem operandOf_written {view : StepView} {key : Int} {op : Operator Float}
    (hkey : view.step.keys.head? = some key) (hop : c.operands.get? key = some op) :
    operandOf (operandsOf c.operands) (view.entry true) = .ok (.operator op) := by
  refine operandOf_eq_ok.mpr ⟨op, ?_, rfl⟩
  rw [StepView.get?_operand, hkey]
  exact (lookup_encoded c.operands.entries key).trans hop

theorem replayable_of_shaped {kind : GateKind} {op : Operator Float} {controls targets : List Int}
    {name : String} {increment : Nat}
    (h : Shaped (.gate kind op controls targets name increment)) :
    kind.Replayable controls targets := by
  have hone : ∀ indices : List Int, indices.length = 1 → indices ≠ [] := by
    rintro _ hlength rfl
    cases hlength
  obtain ⟨htakes, -⟩ := h
  cases kind with
  | controlled control one other =>
    exact ⟨fun h => hone _ (htakes.1 h), fun h => hone _ (htakes.2 h)⟩
  | none => exact htakes
  | fourier => exact htakes
  | inverseFourier => exact htakes
  | _ => trivial

/-- A written step is read as the call for its entry. -/
theorem callOf_written {entry : Entry Float} (hshaped : Shaped entry)
    (hoperator : ∀ op ∈ entry.operator?, c.operands.get? (c.operands.keyOf op) = some op)
    (serial ip : Nat) :
    callOf (operandsOf c.operands) (((c.stepOf entry).view serial ip).entry true) =
      .ok entry.call := by
  have hreads := reads_entry ((c.stepOf entry).view serial ip) true
  cases entry with
  | gate kind op controls targets name increment =>
    refine (callOf_gate_eq_ok hreads).mpr ⟨kind, GateKind.ofName?_name kind, op, ?_, ?_, rfl⟩
    · exact operandOf_written rfl (hoperator op rfl)
    · exact replayable_of_shaped hshaped
  | measurement kind basis targets dit name =>
    refine (callOf_measurement_eq_ok hreads).mpr
      ⟨kind, MeasureKind.ofName?_name kind, basis, ?_, rfl⟩
    have hone : targets.length = 1 → targets ≠ [] := by
      rintro hlength rfl
      cases hlength
    cases basis with
    | none =>
      cases kind with
      | standard => exact hone hshaped
      | _ => exact hshaped
    | some op =>
      cases kind with
      | basis => exact ⟨operandOf_written rfl (hoperator op rfl), hone hshaped⟩
      | jointBasis => exact operandOf_written rfl (hoperator op rfl)
      | _ => exact hshaped

/-! ## Reports that are read -/

/-- The circuit that a report starts with has the extents of the one that was written, and the usual
names and keys. -/
theorem emptyCircuit_report_eq_ok [Capacity] (hqudits : 1 ≤ c.qudits) (hdim : 2 ≤ c.dim)
    (hflags : checkListExtent Capacity.flags c.qudits = .ok ()) {metadata : List (String × Json)}
    {serial : Nat} {start : Circuit Float} :
    emptyCircuit serial (c.report metadata true) = .ok start ↔ ∃ namer,
      standardNamer c.dim = .ok namer ∧
        empty serial c.qudits c.dits c.dim c.name namer Operator.contentKey = start :=
  mapError_eq_ok.trans (create?_natCast_eq_ok hqudits hdim hflags)

theorem readOperands_report (h : c.operands.Writable) :
    readOperands (c.operands.entries.map fun (key, op) => (operandId key, op.encoded)) =
      .ok (operandsOf c.operands) := by
  refine readOperands_encoded fun entry hentry => ?_
  obtain ⟨n, hn, hshape⟩ := h entry hentry
  exact Operator.decode_encoded hshape hn

/-- The steps of a report are read as the calls for the entries that were recorded. -/
theorem callsOf_report {entries : List (Entry Float)} (hc : c.Ordered) (h : Records c entries) :
    (c.views.map (·.entry true)).mapM (callOf (operandsOf c.operands)) =
      .ok (entries.map Entry.call) := by
  have hsteps : c.views.map (·.entry true) =
      entries.mapIdx fun ip entry => ((c.stepOf entry).view c.serial ip).entry true := by
    rw [views_eq hc, h.log_eq]
    exact List.ext_getElem (by simp) (by simp)
  rw [hsteps]
  refine mapM_mapIdx_eq_ok fun ip entry hentry => ?_
  exact callOf_written (h.shaped entry hentry) (h.operands entry hentry) _ _

/-- Steps that are read are replayed by making their calls one after the other. -/
theorem replay_of_calls {operands : Operands} {entries : List Json} {calls : List (Call Float)}
    (h : entries.mapM (callOf operands) = .ok calls) (start : Circuit Float) :
    replay operands start entries = (start.appendAll calls).mapError .circuit := by
  induction entries generalizing start calls with
  | nil =>
    cases h
    rfl
  | cons entry entries ih =>
    obtain ⟨call, rest, hcall, hrest, rfl⟩ := mapM_cons_eq_ok.mp h
    rw [replay_cons, hcall]
    show ((start.append call).mapError _ >>= fun next => _) = ((start.append call) >>= _).mapError _
    cases start.append call with
    | error fault => rfl
    | ok next => exact ih hrest next

/-- A report is rebuilt by making the calls for the entries that were recorded, one after the other,
on a circuit with the usual names and keys. -/
theorem rebuild_written [Capacity] {entries : List (Entry Float)} (hc : c.WellFormed)
    (hqudits : 1 ≤ c.qudits) (hdim : 2 ≤ c.dim) {namer : Operator Float → String}
    (hnamer : standardNamer c.dim = .ok namer)
    (hflags : checkListExtent Capacity.flags c.qudits = .ok ()) (h : Records c entries)
    (hwritable : c.operands.Writable) (metadata : List (String × Json)) (serial : Nat) :
    rebuild serial (c.report metadata true) =
      ((empty serial c.qudits c.dits c.dim c.name namer Operator.contentKey).appendAll
        (entries.map Entry.call)).mapError .circuit := by
  have hvalid : validate (c.report metadata true) = .ok () :=
    validate_eq_ok.mpr (reportLayout_report metadata true hc hqudits hdim)
  have hprepare : prepare serial (c.report metadata true) = .ok (operandsOf c.operands,
      empty serial c.qudits c.dits c.dim c.name namer Operator.contentKey) := by
    unfold prepare
    rw [hvalid]
    show (readOperands _ >>= fun operands => _) = _
    rw [bind_eq_ok]
    refine ⟨_, readOperands_report hwritable, ?_⟩
    rw [(emptyCircuit_report_eq_ok hqudits hdim hflags).mpr ⟨namer, hnamer, rfl⟩]
    rfl
  unfold rebuild
  rw [hprepare]
  exact replay_of_calls (callsOf_report hc.ordered h) _

/-- A circuit with a history is rebuilt from its report. -/
theorem rebuild_of_history [Capacity] {serial : Nat} {qudits dits dim : Argument} {name : String}
    {entries : List (Entry Float)}
    (hblank : create? serial qudits dits dim name standardNamer Operator.contentKey = .ok c.blank)
    (hc : c.WellFormed) (h : History c.blank c entries) (hwritable : c.operands.Writable)
    (metadata : List (String × Json)) (serial' : Nat) :
    rebuild serial' (c.report metadata true) = .ok (c.renumbered serial') := by
  obtain ⟨hqudits, hdim, hnamer, hflags⟩ := extents_of_create? hblank
  have hkeyOf : c.operands.keyOf = Operator.contentKey := by
    obtain ⟨n, m, d, namer, heq⟩ := create?_eq_ok hblank
    exact congrArg (fun c : Circuit Float => c.operands.keyOf) heq
  rw [rebuild_written hc hqudits hdim hnamer hflags h.toRecords hwritable, ← hkeyOf]
  -- the calls of the history are made once more, on a circuit with another number
  show ((c.blank.renumbered serial').appendAll _).mapError _ = _
  rw [appendAll_renumbered, h.appendAll_eq]
  rfl

/-- Whatever was asked of a circuit with the usual names and keys, it is rebuilt from its report:
with the same extents and name, the same steps, counts and marks, and the same operators under the
same keys in their order. -/
theorem rebuild_report [Capacity] {serial : Nat} {qudits dits dim : Argument} {name : String}
    {start : Circuit Float}
    (hstart : create? serial qudits dits dim name standardNamer Operator.contentKey = .ok start)
    {calls : List (Call Float)} (hcalls : ∀ call ∈ calls, call.Held)
    (metadata : List (String × Json)) (serial' : Nat) :
    rebuild serial' ((start.attemptAll calls).report metadata true) =
      .ok { start.attemptAll calls with serial := serial' } := by
  have hc := wellFormed_attemptAll hstart calls
  have hextents := extents_of_create? hstart
  obtain ⟨n, m, d, namer, rfl⟩ := create?_eq_ok hstart
  have hnamer : standardNamer d = .ok namer := hextents.2.2.1
  obtain ⟨entries, hhistory⟩ := history_attemptAll serial n m d name (namer_eq_of_same hnamer)
    Operator.contentKey calls
  have hwritable := writable_attemptAll
    (c := empty serial n m d name namer Operator.contentKey) (fun _ h => nomatch h) hcalls
  have hblank : ((empty serial n m d name namer Operator.contentKey).attemptAll calls).blank =
      empty serial n m d name namer Operator.contentKey := blank_attemptAll _ calls
  -- the circuit at the start is the blank one of the circuit at the end
  generalize (empty serial n m d name namer Operator.contentKey).attemptAll calls = c at *
  rw [← hblank] at hstart hhistory
  exact rebuild_of_history hstart hc hhistory hwritable metadata serial'

section

attribute [local instance] Capacity.common

/-- On two qubits, a controlled gate and a measurement are rebuilt. -/
theorem rebuild_report_pair :
    let library : GateLibrary String Float := .standard 2 GateLibrary.standardTolerance
    let start := empty 0 2 1 2 "pair" library.nameOf Operator.contentKey
    let calls : List (Call Float) :=
      [.ctrl (.operator (.identity 2)) (.ofInt 0) (.ofInt 1) "", .measureZ (.int 1) (.int 0) ""]
    create? 0 (.int 2) (.int 1) (.int 2) "pair" standardNamer Operator.contentKey = .ok start ∧
      (∀ call ∈ calls, call.Held) ∧
      (start.attemptAll calls).log.map Step.qudits = [[0, 1], [1]] ∧
      rebuild 1 ((start.attemptAll calls).report [] true) =
        .ok { start.attemptAll calls with serial := 1 } := by
  intro library start calls
  have hstart : create? 0 (.int 2) (.int 1) (.int 2) "pair" standardNamer Operator.contentKey =
      .ok start := rfl
  have hcalls : ∀ call ∈ calls, call.Held := by
    intro call hcall
    rcases List.mem_pair.mp hcall with rfl | rfl
    · rintro _ ⟨⟩ n hn
      have hn : n ∈ [2, 2] := hn
      simp only [List.mem_cons, List.not_mem_nil, or_false, or_self] at hn
      omega
    · exact nofun
  exact ⟨hstart, hcalls, rfl, rebuild_report hstart hcalls [] 1⟩

end

end Report

end QuditSim
