import Mathlib.Data.List.Basic
import QuditSim.Circuit.Cursor

/-!
# The log of a circuit

A circuit keeps its gates and its measurements in two lists and says in a third which list each
step comes from. `Circuit.log` merges them into the one list of steps in the order in which they
were appended, and `Circuit.Ordered` says that the three lists fit together.

- `Circuit.log_append_step`: appending a step to the three lists appends it to the log.
- `Circuit.views_eq`: walking over an ordered circuit shows the steps of its log, each at its
  place.
-/

namespace QuditSim

/-- The gate that a step is, if it is one. -/
def Step.gate? : Step → Option GateStep
  | gate step => some step
  | measure _ => none

/-- The measurement that a step is, if it is one. -/
def Step.measure? : Step → Option MeasureStep
  | gate _ => none
  | measure step => some step

@[simp] theorem Step.gate?_gate (step : GateStep) : (Step.gate step).gate? = some step := rfl

@[simp] theorem Step.gate?_measure (step : MeasureStep) : (Step.measure step).gate? = none := rfl

@[simp] theorem Step.measure?_gate (step : GateStep) : (Step.gate step).measure? = none := rfl

@[simp] theorem Step.measure?_measure (step : MeasureStep) :
    (Step.measure step).measure? = some step := rfl

/-- The keys of the operators of a step. -/
def Step.keys : Step → List Int
  | gate step => [step.key]
  | measure step => step.keys

/-- The steps of two lists in the order that a list of sorts gives, up to the first sort for which
there is no step left. -/
def interleave : List StepKind → List GateStep → List MeasureStep → List Step
  | .gate :: order, gate :: gates, measurements =>
    .gate gate :: interleave order gates measurements
  | .measurement :: order, gates, measurement :: measurements =>
    .measure measurement :: interleave order gates measurements
  | _, _, _ => []

/-- A list of steps is put together again from its gates, its measurements and its sorts. -/
theorem interleave_split (log : List Step) :
    interleave (log.map Step.kind) (log.filterMap Step.gate?) (log.filterMap Step.measure?) =
      log := by
  induction log with
  | nil => rfl
  | cons step log ih =>
    cases step with
    | gate step => simpa [interleave, List.filterMap_cons] using ih
    | measure step => simpa [interleave, List.filterMap_cons] using ih

namespace Circuit

variable {S : Type}

/-- The steps in the order in which they were appended. -/
def log (c : Circuit S) : List Step := interleave c.order c.gates c.measurements

/-- The lists of a circuit fit together: they are the sorts, the gates and the measurements of
its log. -/
structure Ordered (c : Circuit S) : Prop where
  /-- The sorts of the steps are noted in order. -/
  order_eq : c.order = c.log.map Step.kind
  /-- The gates are those of the log. -/
  gates_eq : c.gates = c.log.filterMap Step.gate?
  /-- The measurements are those of the log. -/
  measurements_eq : c.measurements = c.log.filterMap Step.measure?

/-- A circuit whose lists are the parts of a list of steps has that list as its log. -/
theorem log_eq_of_split {c : Circuit S} {log : List Step} (horder : c.order = log.map Step.kind)
    (hgates : c.gates = log.filterMap Step.gate?)
    (hmeasurements : c.measurements = log.filterMap Step.measure?) : c.log = log := by
  rw [Circuit.log, horder, hgates, hmeasurements, interleave_split]

/-- Appending a step to the lists of an ordered circuit appends it to the log. -/
theorem log_append_step {c c' : Circuit S} {step : Step} (h : c.Ordered)
    (horder : c'.order = c.order ++ [step.kind])
    (hgates : c'.gates = c.gates ++ step.gate?.toList)
    (hmeasurements : c'.measurements = c.measurements ++ step.measure?.toList) :
    c'.log = c.log ++ [step] ∧ c'.Ordered := by
  -- each of the three lists of the circuit is that part of the longer log
  have ho : c'.order = (c.log ++ [step]).map Step.kind := by
    rw [horder, List.map_append, ← h.order_eq, List.map_singleton]
  have hg : c'.gates = (c.log ++ [step]).filterMap Step.gate? := by
    rw [hgates, List.filterMap_append, ← h.gates_eq]
    cases step <;> rfl
  have hm : c'.measurements = (c.log ++ [step]).filterMap Step.measure? := by
    rw [hmeasurements, List.filterMap_append, ← h.measurements_eq]
    cases step <;> rfl
  have hlog := log_eq_of_split ho hg hm
  exact ⟨hlog, by rw [hlog]; exact ho, by rw [hlog]; exact hg, by rw [hlog]; exact hm⟩

/-- The log has one step for each noted sort. -/
theorem Ordered.length_log {c : Circuit S} (h : c.Ordered) : c.log.length = c.stepCount := by
  rw [stepCount, h.order_eq, List.length_map]

/-- The sort at the place of a step is the sort of the step. -/
theorem Ordered.kindAt {c : Circuit S} (h : c.Ordered) (ip : Nat) (hip : ip < c.log.length) :
    c.kindAt ip = c.log[ip].kind := by
  rw [Circuit.kindAt, h.order_eq]
  simp [hip]

/-- Among the items that a list keeps, the item kept at a place stands behind those kept before
that place. -/
theorem getElem?_filterMap_take {α β : Type} (f : α → Option β) (xs : List α) (i : Nat)
    (hi : i < xs.length) {y : β} (hy : f xs[i] = some y) :
    (xs.filterMap f)[((xs.take i).filterMap f).length]? = some y := by
  -- what is kept before the place, and what is kept from the place on
  have hsplit : xs.filterMap f = (xs.take i).filterMap f ++ (xs.drop i).filterMap f := by
    rw [← List.filterMap_append, List.take_append_drop]
  rw [hsplit, List.getElem?_append_right (Nat.le_refl _), Nat.sub_self,
    List.drop_eq_getElem_cons hi, List.filterMap_cons_some hy, List.getElem?_cons_zero]

/-- At a place of the log, the records behind the gates and the measurements before it hold the
step of that place. -/
theorem Ordered.recordAt? {c : Circuit S} (h : c.Ordered) (ip : Nat) (hip : ip < c.log.length) :
    c.recordAt? (c.kindAt ip) ((c.log.take ip).filterMap Step.gate?).length
      ((c.log.take ip).filterMap Step.measure?).length = some c.log[ip] := by
  rw [h.kindAt ip hip]
  -- the records of one sort before the place are those that the cursor has passed
  cases hstep : c.log[ip] with
  | gate step =>
    have hrecord := getElem?_filterMap_take Step.gate? c.log ip hip (y := step) (by rw [hstep]; rfl)
    rw [← h.gates_eq] at hrecord
    simp [Circuit.recordAt?, hrecord]
  | measure step =>
    have hrecord :=
      getElem?_filterMap_take Step.measure? c.log ip hip (y := step) (by rw [hstep]; rfl)
    rw [← h.measurements_eq] at hrecord
    simp [Circuit.recordAt?, hrecord]

end Circuit

namespace Cursor

variable {S : Type}

/-- The cursor on the step at a place of the log. -/
def onStep (c : Circuit S) (ip : Nat) : Cursor :=
  ⟨c.kindAt ip, ip, ((c.log.take ip).filterMap Step.gate?).length,
    ((c.log.take ip).filterMap Step.measure?).length⟩

theorem start_eq_onStep (c : Circuit S) : start c = onStep c 0 := by
  simp [start, onStep]

/-- A cursor on a step knows the sort of the step already. -/
theorem refresh_onStep {c : Circuit S} (h : c.Ordered) {ip : Nat} (hip : ip < c.log.length) :
    (onStep c ip).refresh (some c) = onStep c ip := by
  have hkind : (onStep c ip).kind ≠ .none := by
    show c.kindAt ip ≠ .none
    rw [h.kindAt ip hip]
    cases c.log[ip] <;> simp
  simp [refresh, hkind]

/-- A cursor on a step shows it. -/
theorem deref_onStep {c : Circuit S} (h : c.Ordered) {ip : Nat} (hip : ip < c.log.length) :
    (onStep c ip).deref (some c) = .ok (c.log[ip].view c.serial ip, onStep c ip) := by
  have hcount : ¬ c.stepCount ≤ (onStep c ip).ip := by
    rw [← h.length_log]
    exact Nat.not_le_of_lt hip
  have hrecord : c.recordAt? (onStep c ip).kind (onStep c ip).gateCursor
      (onStep c ip).measureCursor = some c.log[ip] := h.recordAt? ip hip
  unfold deref
  dsimp only
  rw [if_neg hcount, refresh_onStep h hip, hrecord]
  show Except.ok (_, _) = _
  rw [show (onStep c ip).kind = c.log[ip].kind from h.kindAt ip hip]
  rfl

/-- A cursor on a step moves to the next place. -/
theorem advance_onStep {c : Circuit S} (h : c.Ordered) {ip : Nat} (hip : ip < c.log.length) :
    (onStep c ip).advance (some c) = .ok (onStep c (ip + 1)) := by
  have hcount : ¬ c.stepCount ≤ (onStep c ip).ip := by
    rw [← h.length_log]
    exact Nat.not_le_of_lt hip
  -- a circuit without steps has a way of its own to be walked over
  have hpos : c.stepCount ≠ 0 := by
    rw [← h.length_log]
    omega
  have htake : c.log.take (ip + 1) = c.log.take ip ++ [c.log[ip]] := by
    rw [List.take_succ_eq_append_getElem hip]
  unfold advance
  dsimp only
  rw [if_neg hpos, if_neg hcount, refresh_onStep h hip,
    show (onStep c ip).kind = c.log[ip].kind from h.kindAt ip hip]
  unfold onStep
  rw [htake, List.filterMap_append, List.filterMap_append]
  cases c.log[ip] <;> simp [List.filterMap_cons]

theorem next?_onStep {c : Circuit S} (h : c.Ordered) {ip : Nat} (hip : ip < c.log.length) :
    (onStep c ip).next? c = some (c.log[ip].view c.serial ip, onStep c (ip + 1)) := by
  have hcount : ¬ c.stepCount ≤ (onStep c ip).ip := by
    rw [← h.length_log]
    exact Nat.not_le_of_lt hip
  unfold next?
  rw [if_neg hcount, deref_onStep h hip]
  simp [advance_onStep h hip, Except.toOption]

/-- Draining a cursor shows the steps from its place on. -/
theorem drainFor_onStep {c : Circuit S} (h : c.Ordered) (fuel ip : Nat)
    (hfuel : ip + fuel = c.log.length) :
    (drainFor c fuel (onStep c ip)).1 =
      (c.log.drop ip).mapIdx fun i step => step.view c.serial (ip + i) := by
  -- the fuel is the number of steps that are left, and each of them is shown
  induction fuel generalizing ip with
  | zero =>
    rw [List.drop_eq_nil_of_le (by omega)]
    rfl
  | succ fuel ih =>
    have hip : ip < c.log.length := by omega
    rw [drainFor, next?_onStep h hip, List.drop_eq_getElem_cons hip, List.mapIdx_cons]
    simp only [ih (ip + 1) (by omega), Nat.add_zero]
    congr 2
    funext i step
    rw [Nat.add_assoc, Nat.add_comm 1 i]

end Cursor

/-- Walking over an ordered circuit shows the steps of its log in order, each at its place. -/
theorem Circuit.views_eq {S : Type} {c : Circuit S} (h : c.Ordered) :
    c.views = c.log.mapIdx fun i step => step.view c.serial i := by
  have hdrain := Cursor.drainFor_onStep h c.stepCount 0 (by rw [h.length_log, Nat.zero_add])
  rw [List.drop_zero, ← Cursor.start_eq_onStep] at hdrain
  simpa [Circuit.views, Cursor.drain, Cursor.start] using hdrain

end QuditSim
