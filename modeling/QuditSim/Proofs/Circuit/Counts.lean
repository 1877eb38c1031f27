import Mathlib.Data.List.Induction
import QuditSim.Exchange.Circuit
import QuditSim.Proofs.Circuit.Replay
import QuditSim.Proofs.Circuit.Walking

/-!
# The counts of a circuit

A circuit counts what it records while it records it: the steps by the order of their sorts, and the
gates and the measurements by name. A gate on several qudits by itself counts once for each of them.
The counts are never looked at again when steps are recorded, so that they are right is a matter of
every call that was ever accepted.

- `Tally.ofItems_eq`: a tally that was made item by item has the names in the order of first use, and
  for each of them the sum over the items with that name.
- `Circuit.Tallied` says that the tallies of a circuit are those of its steps;
  `Circuit.Tallied.commit` is the step lemma.
- `Circuit.Recounted` says what a recount of all steps finds, and `Circuit.counts_recounted` that it
  finds it after any calls, of which some are refused, and that reports, summaries and listings say
  the same numbers.
-/

namespace QuditSim

open Fallible

/-! ## Tallies made item by item -/

theorem nodup_eraseDups {α : Type} [BEq α] [LawfulBEq α] [DecidableEq α] (xs : List α) :
    xs.eraseDups.Nodup := by
  induction xs using List.reverseRecOn with
  | nil => exact List.nodup_nil
  | append_singleton xs x ih =>
    rw [eraseDups_concat]
    split
    · exact ih
    · next hx =>
      refine List.nodup_append.mpr ⟨ih, List.pairwise_singleton _ x, ?_⟩
      intro y hy z hz heq
      rw [heq, List.mem_singleton.mp hz] at hy
      exact hx (List.mem_eraseDups.mp hy)

namespace Tally

/-- The tally of named amounts. -/
def ofItems (items : List (String × Nat)) : Tally :=
  items.foldl (fun tally item => tally.add item.1 item.2) []

/-- The sum of the amounts under a name. -/
def amount (items : List (String × Nat)) (name : String) : Nat :=
  ((items.filter fun item => item.1 = name).map Prod.snd).sum

theorem ofItems_concat (items : List (String × Nat)) (item : String × Nat) :
    ofItems (items ++ [item]) = (ofItems items).add item.1 item.2 := by
  simp [ofItems]

theorem amount_concat (items : List (String × Nat)) (item : String × Nat) (name : String) :
    amount (items ++ [item]) name =
      if item.1 = name then amount items name + item.2 else amount items name := by
  unfold amount
  rw [List.filter_append]
  split
  · next h => simp [h]
  · next h => simp [h]

/-- A name that is new to a tally comes last. -/
theorem add_of_not_mem (names : List String) (f : String → Nat) {name : String} (count : Nat)
    (h : name ∉ names) :
    add (names.map fun known => (known, f known)) name count =
      (names.map fun known => (known, f known)) ++ [(name, count)] := by
  induction names with
  | nil => rfl
  | cons known names ih =>
    rw [List.mem_cons, not_or] at h
    obtain ⟨hknown, hnames⟩ := h
    rw [List.map_cons, add, if_neg (Ne.symm hknown), ih hnames, List.cons_append]

/-- The count of a name that is known to a tally is raised in its place. -/
theorem add_of_mem (names : List String) (f : String → Nat) {name : String} (count : Nat)
    (hnodup : names.Nodup) (h : name ∈ names) :
    add (names.map fun known => (known, f known)) name count =
      names.map fun known => (known, if name = known then f known + count else f known) := by
  induction names with
  | nil => cases h
  | cons known names ih =>
    obtain ⟨hnot, hrest⟩ := List.nodup_cons.mp hnodup
    rw [List.map_cons, List.map_cons, add]
    by_cases hknown : known = name
    · subst hknown
      rw [if_pos rfl, if_pos rfl]
      -- the name does not come again
      congr 1
      refine List.map_congr_left fun other hother => ?_
      rw [if_neg]
      rintro rfl
      exact hnot hother
    · have hmem : name ∈ names := (List.mem_cons.mp h).resolve_left (Ne.symm hknown)
      rw [if_neg hknown, if_neg (Ne.symm hknown), ih hrest hmem]

/-- A tally that was made item by item has the names in the order of first use, each with the sum of
its amounts. -/
theorem ofItems_eq (items : List (String × Nat)) :
    ofItems items = (items.map Prod.fst).eraseDups.map fun name => (name, amount items name) := by
  induction items using List.reverseRecOn with
  | nil => rfl
  | append_singleton items item ih =>
    rw [ofItems_concat, ih, List.map_append, List.map_singleton, eraseDups_concat]
    split
    · next hmem =>
      rw [add_of_mem _ _ _ (nodup_eraseDups _) (List.mem_eraseDups.mpr hmem)]
      simp only [amount_concat]
    · next hmem =>
      rw [add_of_not_mem _ _ _ (fun h => hmem (List.mem_eraseDups.mp h)), List.map_append,
        List.map_singleton, amount_concat, if_pos rfl]
      have hzero : amount items item.1 = 0 := by
        unfold amount
        rw [List.filter_eq_nil_iff.mpr]
        · rfl
        · intro other hother
          simp only [decide_eq_true_eq]
          exact fun heq => hmem (heq ▸ List.mem_map_of_mem hother)
      rw [hzero, Nat.zero_add]
      congr 1
      refine List.map_congr_left fun known hknown => ?_
      rw [amount_concat, if_neg]
      rintro rfl
      exact hmem (List.mem_eraseDups.mp hknown)

/-- The sum of a tally is that of all amounts. -/
theorem total_ofItems (items : List (String × Nat)) :
    (ofItems items).total = (items.map Prod.snd).sum := by
  induction items using List.reverseRecOn with
  | nil => rfl
  | append_singleton items item ih => rw [ofItems_concat, total_add, ih]; simp

/-- Names that are counted are those that are there. -/
theorem count?_map (names : List String) (f : String → Nat) (name : String) :
    count? (names.map fun known => (known, f known)) name =
      if name ∈ names then some (f name) else none := by
  unfold count?
  induction names with
  | nil => rfl
  | cons known names ih =>
    by_cases h : known = name
    · simp [h]
    · simp only [List.map_cons, List.find?_cons, beq_eq_false_iff_ne.mpr h, ih, List.mem_cons,
        Ne.symm h, false_or]

end Tally

/-! ## The tallies of a circuit -/

/-- How often a gate counts. -/
def GateStep.weight (step : GateStep) : Nat := if step.kind = .fan then step.targets.length else 1

namespace Circuit

variable {S : Type} {c : Circuit S}

/-- The names of the gates, in the order of first use. -/
def gateNames (c : Circuit S) : List String := (c.gates.map GateStep.name).eraseDups

/-- The names of the measurements, in the order of first use. -/
def measureNames (c : Circuit S) : List String := (c.measurements.map MeasureStep.name).eraseDups

/-- The recorded gates under a name, counted. -/
def gatesUnder (c : Circuit S) (name : String) : Nat :=
  ((c.gates.filter fun step => step.name = name).map GateStep.weight).sum

/-- The recorded measurements under a name, counted. -/
def measurementsUnder (c : Circuit S) (name : String) : Nat :=
  c.measurements.countP fun step => step.name = name

/-- The tallies of a circuit are those of its steps. -/
structure Tallied (c : Circuit S) : Prop where
  /-- The lists of gates, measurements and sorts fit together. -/
  ordered : c.Ordered
  /-- Every gate counts under its name. -/
  gateCounts_eq :
    c.gateCounts = Tally.ofItems (c.gates.map fun step => (step.name, step.weight))
  /-- Every measurement counts under its name. -/
  measureCounts_eq :
    c.measureCounts = Tally.ofItems (c.measurements.map fun step => (step.name, 1))

/-- Recording an entry with its count keeps the tallies in step with the log. -/
theorem Tallied.commit (h : c.Tallied) {entry : Entry S} (hcounted : Counted entry) :
    (c.commit entry).Tallied := by
  refine ⟨(h.ordered.commit entry).2, ?_, ?_⟩
  · cases entry with
    | gate kind op controls targets name increment =>
      show c.gateCounts.add name increment = Tally.ofItems ((c.gates ++ [_]).map _)
      rw [h.gateCounts_eq, List.map_append, List.map_singleton, Tally.ofItems_concat]
      exact congrArg (Tally.add _ name) hcounted
    | measurement kind basis targets dit name => exact h.gateCounts_eq
  · cases entry with
    | gate kind op controls targets name increment => exact h.measureCounts_eq
    | measurement kind basis targets dit name =>
      show c.measureCounts.add name 1 = Tally.ofItems ((c.measurements ++ [_]).map _)
      rw [h.measureCounts_eq, List.map_append, List.map_singleton, Tally.ofItems_concat]

/-- Calls keep the tallies in step with the log, whether they are accepted or refused. -/
theorem Tallied.attemptAll [Scalar S] (h : c.Tallied) (calls : List (Call S)) :
    (c.attemptAll calls).Tallied :=
  attemptAll_keeps (fun _ hc _ _ _ _ hplanned => hc.commit hplanned.named.2) h

/-! ## A recount -/

/-- What a recount of the steps of a circuit finds. -/
structure Recounted (c : Circuit S) : Prop where
  /-- Every step is a gate or a measurement. -/
  stepCount_eq : c.stepCount = c.gates.length + c.measurements.length
  /-- There is one gate for each step that is noted as one. -/
  count_gate : c.order.count .gate = c.gates.length
  /-- There is one measurement for each step that is noted as one. -/
  count_measurement : c.order.count .measurement = c.measurements.length
  /-- The names of gates are known, each with the gates under it. -/
  gateCounts_eq : c.gateCounts = c.gateNames.map fun name => (name, c.gatesUnder name)
  /-- The names of measurements are known, each with the measurements under it. -/
  measureCounts_eq : c.measureCounts = c.measureNames.map fun name => (name, c.measurementsUnder name)
  /-- The names together have all gates under them. -/
  gates_sum : (c.gateNames.map c.gatesUnder).sum = (c.gates.map GateStep.weight).sum
  /-- The names together have all measurements under them. -/
  measurements_sum : (c.measureNames.map c.measurementsUnder).sum = c.measurements.length

theorem amount_gates (c : Circuit S) (name : String) :
    Tally.amount (c.gates.map fun step => (step.name, step.weight)) name = c.gatesUnder name := by
  simp [Tally.amount, gatesUnder, List.filter_map, Function.comp_def]

theorem amount_measurements (c : Circuit S) (name : String) :
    Tally.amount (c.measurements.map fun step => (step.name, 1)) name =
      c.measurementsUnder name := by
  simp [Tally.amount, measurementsUnder, List.filter_map, Function.comp_def,
    List.countP_eq_length_filter]

/-- Every step of an ordered circuit is a gate or a measurement. -/
theorem Ordered.stepCount_eq (h : c.Ordered) :
    c.stepCount = c.gates.length + c.measurements.length := by
  rw [← h.length_log, h.gates_eq, h.measurements_eq]
  induction c.log with
  | nil => rfl
  | cons step log ih =>
    cases step with
    | gate step => simp [List.filterMap_cons, ih]; omega
    | measure step => simp [List.filterMap_cons, ih]; omega

theorem Tallied.recounted (h : c.Tallied) : c.Recounted := by
  have hgates : c.gateCounts = c.gateNames.map fun name => (name, c.gatesUnder name) := by
    rw [h.gateCounts_eq, Tally.ofItems_eq, List.map_map]
    simp only [amount_gates]
    rfl
  have hmeasurements :
      c.measureCounts = c.measureNames.map fun name => (name, c.measurementsUnder name) := by
    rw [h.measureCounts_eq, Tally.ofItems_eq, List.map_map]
    simp only [amount_measurements]
    rfl
  have hlength : c.log.take c.stepCount = c.log := by
    rw [← h.ordered.length_log, List.take_length]
  refine ⟨h.ordered.stepCount_eq, ?_, ?_, hgates, hmeasurements, ?_, ?_⟩
  · have hcount := h.ordered.length_gates_take c.stepCount
    rw [hlength, ← h.ordered.gates_eq, stepCount, List.take_length] at hcount
    exact hcount.symm
  · have hcount := h.ordered.length_measurements_take c.stepCount
    rw [hlength, ← h.ordered.measurements_eq, stepCount, List.take_length] at hcount
    exact hcount.symm
  · have htotal := congrArg Tally.total h.gateCounts_eq
    rw [hgates, Tally.total_ofItems] at htotal
    simpa [Tally.total, Function.comp_def] using htotal
  · have htotal := congrArg Tally.total h.measureCounts_eq
    rw [hmeasurements, Tally.total_ofItems] at htotal
    simpa [Tally.total, Function.comp_def] using htotal

/-! ## What a circuit says of its counts -/

/-- What a circuit answers when it is asked for a count. -/
structure AnswersCounts (c : Circuit S) : Prop where
  /-- All gates are those under all names. -/
  gateCount_none : c.gateCount none = .ok (c.gateNames.map c.gatesUnder).sum
  /-- A name that was used for gates has a count. -/
  gateCount_used : ∀ name ∈ c.gateNames, c.gateCount (some name) = .ok (c.gatesUnder name)
  /-- A name that was not used for gates has none. -/
  gateCount_unused : ∀ name, name ∉ c.gateNames → c.gateCount (some name) = .error .unusedName
  /-- All measurements are those under all names. -/
  measurementCount_none : c.measurementCount none = .ok (c.measureNames.map c.measurementsUnder).sum
  /-- A name that was used for measurements has a count. -/
  measurementCount_used : ∀ name ∈ c.measureNames,
    c.measurementCount (some name) = .ok (c.measurementsUnder name)
  /-- A name that was not used for measurements has none. -/
  measurementCount_unused : ∀ name, name ∉ c.measureNames →
    c.measurementCount (some name) = .error .unusedName

theorem Recounted.total_gates (h : c.Recounted) :
    c.gateCounts.total = (c.gateNames.map c.gatesUnder).sum := by
  simp [h.gateCounts_eq, Tally.total, Function.comp_def]

theorem Recounted.total_measurements (h : c.Recounted) :
    c.measureCounts.total = (c.measureNames.map c.measurementsUnder).sum := by
  simp [h.measureCounts_eq, Tally.total, Function.comp_def]

theorem Recounted.answersCounts (h : c.Recounted) : c.AnswersCounts where
  gateCount_none := congrArg Except.ok h.total_gates
  gateCount_used name hname := by
    simp only [gateCount, h.gateCounts_eq, Tally.count?_map, if_pos hname]
  gateCount_unused name hname := by
    simp only [gateCount, h.gateCounts_eq, Tally.count?_map, if_neg hname]
  measurementCount_none := congrArg Except.ok h.total_measurements
  measurementCount_used name hname := by
    simp only [measurementCount, h.measureCounts_eq, Tally.count?_map, if_pos hname]
  measurementCount_unused name hname := by
    simp only [measurementCount, h.measureCounts_eq, Tally.count?_map, if_neg hname]

/-- A report says how many gates and measurements there are, and describes one step for each place. -/
structure ReportsCounts (c : Circuit Float) (report : Json) : Prop where
  /-- The gates under all names. -/
  gate_count : report.get? "gate_count" = some (.nat (c.gateNames.map c.gatesUnder).sum)
  /-- The measurements under all names. -/
  measurement_count :
    report.get? "measurement_count" = some (.nat (c.measureNames.map c.measurementsUnder).sum)
  /-- One description for each step. -/
  steps : ∃ steps, report.get? "steps" = some (.array steps) ∧ steps.length = c.stepCount

/-- A summary says the same, and has the counts by name as well. -/
structure SummarizesCounts (c : Circuit S) (summary : Json) : Prop where
  /-- The number of steps. -/
  n_steps : summary.get? "n_steps" = some (.nat c.stepCount)
  /-- The gates under all names. -/
  gate_count : summary.get? "gate_count" = some (.nat (c.gateNames.map c.gatesUnder).sum)
  /-- The measurements under all names. -/
  measurement_count :
    summary.get? "measurement_count" = some (.nat (c.measureNames.map c.measurementsUnder).sum)
  /-- The gates by name. -/
  gate_counts : summary.get? "gate_counts" =
    some (.object (c.gateNames.map fun name => (name, .nat (c.gatesUnder name))))
  /-- The measurements by name. -/
  measurement_counts : summary.get? "measurement_counts" =
    some (.object (c.measureNames.map fun name => (name, .nat (c.measurementsUnder name))))

/-- A listing has a line for each step between its first line and those of the counts. -/
def ListsCounts (c : Circuit S) (listing : String) : Prop :=
  ∃ head steps rest, steps.length = c.stepCount ∧
    listing = "\n".intercalate ([head] ++ steps ++
      ["gate count: " ++ toString (c.gateNames.map c.gatesUnder).sum,
        "measurement count: " ++ toString (c.measureNames.map c.measurementsUnder).sum] ++ rest)

theorem Ordered.length_views (h : c.Ordered) : c.views.length = c.stepCount := by
  rw [views_eq h, List.length_mapIdx, h.length_log]

theorem Recounted.reportsCounts {c : Circuit Float} (h : c.Recounted) (hc : c.Ordered)
    (metadata : List (String × Json)) (includeOperands : Bool) :
    c.ReportsCounts (c.report metadata includeOperands) where
  gate_count := by
    rw [← h.total_gates]
    rfl
  measurement_count := by
    rw [← h.total_measurements]
    rfl
  steps := ⟨_, rfl, by rw [List.length_map, hc.length_views]⟩

theorem Recounted.summarizesCounts (h : c.Recounted) : c.SummarizesCounts c.summary where
  n_steps := rfl
  gate_count := by
    rw [← h.total_gates]
    rfl
  measurement_count := by
    rw [← h.total_measurements]
    rfl
  gate_counts := by
    show some c.gateCounts.display = _
    simp [h.gateCounts_eq, Tally.display, Function.comp_def]
  measurement_counts := by
    show some c.measureCounts.display = _
    simp [h.measureCounts_eq, Tally.display, Function.comp_def]

theorem Recounted.listsCounts (h : c.Recounted) (hc : c.Ordered) : c.ListsCounts c.listing := by
  refine ⟨"n_qudits = " ++ toString c.qudits ++ ", n_dits = " ++ toString c.dits ++ ", dim = " ++
      toString c.dim ++ ", " ++ Text.named c.name,
    c.views.map (·.line (toString (c.stepCount - 1)).length),
    ["measured positions: " ++ Text.naturals c.measuredQudits,
      "non-measured positions: " ++ Text.naturals c.liveQudits], ?_, ?_⟩
  · rw [List.length_map, hc.length_views]
  · rw [← h.total_gates, ← h.total_measurements, List.append_assoc]
    rfl

section

attribute [local instance] Capacity.common

end

end Circuit

end QuditSim
