import QuditSim.Proofs.Circuit.Fidelity

/-!
# Cursors over a circuit that grows

A cursor keeps the sort of its step, and the circuit grows behind its back: a cursor that stood past
the last step does not know that there is a step at its place now. All that a cursor does, it does
after it has looked at the circuit once more, so it does not matter when it looked before.

- `Cursor.Placed` says how a cursor stands in a circuit, whether or not it has learned the sort of
  its step. It goes on when the circuit grows (`Cursor.Placed.mono`), and every operation of a cursor
  leaves one that is placed.
- `Cursor.Placed.refresh_eq`: a placed cursor that looks at the circuit is the one that
  `Cursor.onStep` makes for its place, so all placed cursors at one place do the same.
- `Circuit.recordOf_log`: the step at a place of the log is the record of the accepted call with that
  place among the accepted calls.
-/

namespace QuditSim

open Fallible

namespace Circuit

variable {S : Type} {c c' : Circuit S}

/-! ## The steps before a place -/

/-- The gates before a place are those steps before it that are noted as gates. -/
theorem Ordered.length_gates_take (h : c.Ordered) (ip : Nat) :
    ((c.log.take ip).filterMap Step.gate?).length = (c.order.take ip).count .gate := by
  rw [h.order_eq, ← List.map_take]
  induction c.log.take ip with
  | nil => rfl
  | cons step steps ih => cases step <;> simp [List.filterMap_cons, ih]

/-- The measurements before a place are those steps before it that are noted as measurements. -/
theorem Ordered.length_measurements_take (h : c.Ordered) (ip : Nat) :
    ((c.log.take ip).filterMap Step.measure?).length = (c.order.take ip).count .measurement := by
  rw [h.order_eq, ← List.map_take]
  induction c.log.take ip with
  | nil => rfl
  | cons step steps ih => cases step <;> simp [List.filterMap_cons, ih]

/-- Past the last step there is no step. -/
theorem kindAt_of_le {ip : Nat} (h : c.stepCount ≤ ip) : c.kindAt ip = .none := by
  rw [kindAt, List.getD_eq_getElem?_getD, List.getElem?_eq_none h, Option.getD_none]

/-- At a place before the last step there is one. -/
theorem Ordered.kindAt_ne_none (h : c.Ordered) {ip : Nat} (hip : ip < c.stepCount) :
    c.kindAt ip ≠ .none := by
  rw [← h.length_log] at hip
  rw [h.kindAt ip hip]
  cases c.log[ip] <;> simp

/-- A circuit that has all that another one recorded notes the same sorts, and perhaps more. -/
theorem Extends.order_prefix (h : c.Extends c') (hc : c.Ordered) (hc' : c'.Ordered) :
    c.order <+: c'.order := by
  rw [hc.order_eq, hc'.order_eq]
  exact h.log.map Step.kind

end Circuit

namespace Cursor

variable {S : Type} {c c' : Circuit S} {cursor : Cursor}

/-! ## Cursors at a place -/

/-- A cursor stands at a place of a circuit: it has passed as many gates and measurements as there
are before the place, and the sort that it keeps is that of the step there, unless it has yet to
learn it. -/
structure Placed (c : Circuit S) (cursor : Cursor) : Prop where
  /-- The place is that of a step, or the one past the last step. -/
  ip_le : cursor.ip ≤ c.stepCount
  /-- It has passed the gates before the place. -/
  gateCursor_eq : cursor.gateCursor = (c.order.take cursor.ip).count .gate
  /-- It has passed the measurements before the place. -/
  measureCursor_eq : cursor.measureCursor = (c.order.take cursor.ip).count .measurement
  /-- It keeps the sort of the step there, or none. -/
  kind_cases : cursor.kind = .none ∨ cursor.kind = c.kindAt cursor.ip

theorem placed_onStep (h : c.Ordered) {ip : Nat} (hip : ip ≤ c.stepCount) :
    (onStep c ip).Placed c :=
  ⟨hip, h.length_gates_take ip, h.length_measurements_take ip, .inr rfl⟩

/-- The cursor past the last step is the one on the place behind all steps. -/
theorem finish_eq_onStep (h : c.Ordered) : finish c = onStep c c.stepCount := by
  rw [finish, onStep, Circuit.kindAt_of_le (Nat.le_refl _),
    List.take_of_length_le (Nat.le_of_eq h.length_log), ← h.gates_eq, ← h.measurements_eq]

theorem placed_start (h : c.Ordered) : (start c).Placed c := by
  rw [start_eq_onStep]
  exact placed_onStep h (Nat.zero_le _)

theorem placed_finish (h : c.Ordered) : (finish c).Placed c := by
  rw [finish_eq_onStep h]
  exact placed_onStep h (Nat.le_refl _)

/-- A cursor stays at its place when steps are appended. One that stood past the last step has yet
to learn the sort of the step that took its place. -/
theorem Placed.mono (h : cursor.Placed c) (horder : c.order <+: c'.order) : cursor.Placed c' := by
  have htake : c'.order.take cursor.ip = c.order.take cursor.ip := by
    obtain ⟨more, hmore⟩ := horder
    rw [← hmore, List.take_append_of_le_length h.ip_le]
  refine ⟨Nat.le_trans h.ip_le horder.length_le, ?_, ?_, ?_⟩
  · rw [htake]
    exact h.gateCursor_eq
  · rw [htake]
    exact h.measureCursor_eq
  · rcases Nat.lt_or_ge cursor.ip c.stepCount with hip | hip
    · have hkind : c'.kindAt cursor.ip = c.kindAt cursor.ip := by
        obtain ⟨more, hmore⟩ := horder
        rw [Circuit.kindAt, Circuit.kindAt, ← hmore, List.getD_eq_getElem?_getD,
          List.getElem?_append_left hip, List.getD_eq_getElem?_getD]
      rw [hkind]
      exact h.kind_cases
    · -- past the last step a cursor keeps no sort
      have hnone : c.kindAt cursor.ip = .none := Circuit.kindAt_of_le hip
      exact .inl (h.kind_cases.elim id fun hkind => hkind.trans hnone)

/-- A placed cursor that looks at the circuit knows all that there is to know at its place. -/
theorem Placed.refresh_eq (h : cursor.Placed c) (hc : c.Ordered) :
    cursor.refresh (some c) = onStep c cursor.ip := by
  obtain ⟨kind, ip, gateCursor, measureCursor⟩ := cursor
  have hgates : gateCursor = ((c.log.take ip).filterMap Step.gate?).length :=
    h.gateCursor_eq.trans (hc.length_gates_take ip).symm
  have hmeasurements : measureCursor = ((c.log.take ip).filterMap Step.measure?).length :=
    h.measureCursor_eq.trans (hc.length_measurements_take ip).symm
  subst hgates hmeasurements
  rcases Nat.lt_or_ge ip c.stepCount with hip | hip
  · rcases h.kind_cases with rfl | hkind
    · simp [refresh, hip, onStep]
    · obtain rfl : kind = c.kindAt ip := hkind
      simp [refresh, hc.kindAt_ne_none hip, onStep]
  · have hnone : c.kindAt ip = .none := Circuit.kindAt_of_le hip
    obtain rfl : kind = .none := h.kind_cases.elim id fun hkind => hkind.trans hnone
    simp [refresh, Nat.not_lt_of_ge hip, onStep, hnone]

theorem Placed.refresh (h : cursor.Placed c) (hc : c.Ordered) :
    (cursor.refresh (some c)).Placed c := by
  rw [h.refresh_eq hc]
  exact placed_onStep hc h.ip_le

/-! ## What placed cursors do -/

/-- Reading takes a look at the circuit first. -/
theorem deref_refresh (c : Circuit S) (cursor : Cursor) :
    (cursor.refresh (some c)).deref (some c) = cursor.deref (some c) := by
  by_cases h : cursor.kind = .none ∧ cursor.ip < c.stepCount
  · simp [deref, refresh, h]
  · simp [refresh, h]

/-- Advancing takes a look at the circuit first. -/
theorem advance_refresh (c : Circuit S) (cursor : Cursor) :
    (cursor.refresh (some c)).advance (some c) = cursor.advance (some c) := by
  by_cases h : cursor.kind = .none ∧ cursor.ip < c.stepCount
  · simp [advance, refresh, h]
  · simp [refresh, h]

/-- A placed cursor shows the step at its place. -/
theorem Placed.deref (h : cursor.Placed c) (hc : c.Ordered) (hip : cursor.ip < c.log.length) :
    cursor.deref (some c) = .ok (c.log[cursor.ip].view c.serial cursor.ip, onStep c cursor.ip) := by
  rw [← deref_refresh, h.refresh_eq hc, deref_onStep hc hip]

/-- A placed cursor advances to the next place. -/
theorem Placed.advance (h : cursor.Placed c) (hc : c.Ordered) (hip : cursor.ip < c.log.length) :
    cursor.advance (some c) = .ok (onStep c (cursor.ip + 1)) := by
  rw [← advance_refresh, h.refresh_eq hc, advance_onStep hc hip]

/-- A placed cursor shows the step at its place and goes on to the next one. -/
theorem Placed.next? (h : cursor.Placed c) (hc : c.Ordered) (hip : cursor.ip < c.log.length) :
    cursor.next? c =
      some (c.log[cursor.ip].view c.serial cursor.ip, onStep c (cursor.ip + 1)) := by
  have hcount : ¬ c.stepCount ≤ cursor.ip := by
    rw [← hc.length_log]
    exact Nat.not_le_of_lt hip
  unfold Cursor.next?
  rw [if_neg hcount, h.deref hc hip]
  simp [advance_onStep hc hip, Except.toOption]

/-- Past the last step there is nothing to show. -/
theorem deref_atEnd (h : c.stepCount ≤ cursor.ip) :
    cursor.deref (some c) = .error (.atStep "deref" cursor.ip (.noDeref .pastEnd)) := if_pos h

theorem next?_atEnd (h : c.stepCount ≤ cursor.ip) : cursor.next? c = none := if_pos h

/-- Past the last step a cursor does not advance. It says so in another way if there are no steps at
all. -/
theorem advance_atEnd (h : c.stepCount ≤ cursor.ip) :
    ∃ failure, cursor.advance (some c) = .error failure ∧ failure.family = .invalidCursor := by
  unfold Cursor.advance
  dsimp only
  rw [if_pos h]
  split
  · exact ⟨_, rfl, rfl⟩
  · exact ⟨_, rfl, rfl⟩

/-- Draining a cursor leaves it behind the steps that it showed. -/
theorem drainFor_onStep_snd (hc : c.Ordered) (fuel ip : Nat) (hfuel : ip + fuel = c.log.length) :
    ((onStep c ip).drainFor c fuel).2 = onStep c c.log.length := by
  induction fuel generalizing ip with
  | zero =>
    rw [← hfuel]
    rfl
  | succ fuel ih =>
    have hip : ip < c.log.length := by omega
    rw [drainFor, next?_onStep hc hip]
    exact ih (ip + 1) (by omega)

/-- Draining shows the steps from the place of a cursor on, and leaves the cursor past the last. -/
theorem Placed.drain (h : cursor.Placed c) (hc : c.Ordered) :
    (cursor.drain c).1 =
        ((c.log.drop cursor.ip).mapIdx fun i step => step.view c.serial (cursor.ip + i)) ∧
      (cursor.drain c).2.Placed c ∧ (cursor.drain c).2.ip = c.stepCount := by
  have hlength := hc.length_log
  have hfuel : cursor.ip + (c.stepCount - cursor.ip) = c.log.length := by
    have hip := h.ip_le
    omega
  unfold Cursor.drain
  generalize c.stepCount - cursor.ip = fuel at hfuel
  cases fuel with
  | zero =>
    rw [List.drop_eq_nil_of_le (by omega)]
    exact ⟨rfl, h, hfuel.trans hlength⟩
  | succ fuel =>
    -- the first step makes the cursor the one for its place
    have hip : cursor.ip < c.log.length := by omega
    have hdrain : cursor.drainFor c (fuel + 1) = (onStep c cursor.ip).drainFor c (fuel + 1) := by
      rw [drainFor, drainFor, h.next? hc hip, next?_onStep hc hip]
    rw [hdrain, drainFor_onStep_snd hc _ _ hfuel]
    exact ⟨drainFor_onStep hc _ _ hfuel, placed_onStep hc (Nat.le_of_eq hlength), hlength⟩

/-- Two placed cursors over one circuit stand at the same place just if they have passed the same
number of steps, whatever they have learned. -/
theorem Placed.sameAs_iff {other : Cursor} (h : cursor.Placed c) (hother : other.Placed c)
    (hc : c.Ordered) :
    cursor.sameAs (some c) (some c) other = true ↔ cursor.ip = other.ip := by
  rw [sameAs, h.refresh_eq hc, hother.refresh_eq hc, beq_iff_eq]
  exact ⟨fun heq => (Cursor.mk.inj heq).2.1, fun hip => by rw [hip]⟩

/-- The cursor after a number of steps forward. -/
def advanceBy (c : Circuit S) : Nat → Cursor → Except Failure Cursor
  | 0, cursor => .ok cursor
  | count + 1, cursor => do (← cursor.advance (some c)).advanceBy c count

theorem advanceBy_onStep (hc : c.Ordered) (count ip : Nat) (hcount : ip + count ≤ c.log.length) :
    (onStep c ip).advanceBy c count = .ok (onStep c (ip + count)) := by
  induction count generalizing ip with
  | zero => rfl
  | succ count ih =>
    have hip : ip < c.log.length := by omega
    rw [advanceBy, advance_onStep hc hip]
    show (onStep c (ip + 1)).advanceBy c count = _
    rw [ih (ip + 1) (by omega), Nat.add_assoc, Nat.add_comm 1 count]

/-- As many steps forward as there are lead from the first step past the last one. -/
theorem advanceBy_start (hc : c.Ordered) :
    (start c).advanceBy c c.stepCount = .ok (finish c) := by
  have hcount : 0 + c.stepCount ≤ c.log.length := by
    rw [Nat.zero_add]
    exact Nat.le_of_eq hc.length_log.symm
  rw [start_eq_onStep, finish_eq_onStep hc, advanceBy_onStep hc _ _ hcount, Nat.zero_add]

end Cursor

namespace Circuit

variable {S : Type} [Scalar S] {c c' : Circuit S}

/-! ## The record of a call -/

/-- A step is what the accepted call at a place among the accepted calls recorded. -/
def RecordOf (start : Circuit S) (calls : List (Call S)) (ip : Nat) (step : Step) : Prop :=
  ∃ call before after, (start.accepted calls)[ip]? = some call ∧
    start.appendAll ((start.accepted calls).take ip) = .ok before ∧
    before.append call = .ok after ∧ before.AddsStep after step

/-- Of calls that are all accepted, each one leads from the circuit that those before it made to a
circuit with one more step, and this step stays where it is. -/
theorem record_of_appendAll {calls : List (Call S)} (hc : c.Ordered)
    (h : c.appendAll calls = .ok c') (i : Nat) (hi : i < calls.length) :
    ∃ before after step, c.appendAll (calls.take i) = .ok before ∧
      before.append calls[i] = .ok after ∧ before.AddsStep after step ∧
      c'.log[c.log.length + i]? = some step := by
  induction calls generalizing c i with
  | nil => cases hi
  | cons call calls ih =>
    obtain ⟨next, hnext, hrest⟩ := appendAll_cons_eq_ok.mp h
    obtain ⟨entry, -, -, rfl⟩ := append_eq_ok.mp hnext
    obtain ⟨hlog, hordered⟩ := hc.commit entry
    cases i with
    | zero =>
      obtain ⟨⟨steps, hsteps, -⟩, -⟩ := appendAll_records hordered hrest
      refine ⟨c, _, c.stepOf entry, rfl, hnext, c.addsStep_commit entry, ?_⟩
      rw [hsteps, hlog]
      simp
    | succ i =>
      obtain ⟨before, after, step, hbefore, hafter, hadds, hstep⟩ :=
        ih hordered hrest i (Nat.lt_of_succ_lt_succ hi)
      refine ⟨before, after, step, ?_, hafter, hadds, ?_⟩
      · exact appendAll_cons_eq_ok.mpr ⟨_, hnext, hbefore⟩
      · rw [hlog, List.length_append, List.length_singleton] at hstep
        rw [← hstep, Nat.add_assoc, Nat.add_comm 1 i]

/-- The step at a place of the log is what the accepted call at that place recorded. -/
theorem recordOf_log {start : Circuit S} (hstart : start.Ordered) (hlog : start.log = [])
    (calls : List (Call S)) (ip : Nat) (hip : ip < (start.attemptAll calls).log.length) :
    start.RecordOf calls ip (start.attemptAll calls).log[ip] := by
  have haccepted := start.appendAll_accepted calls
  obtain ⟨⟨steps, hsteps, hrecorded⟩, -⟩ := appendAll_records hstart haccepted
  have hlength : ip < (start.accepted calls).length := by
    rw [hsteps, hlog, List.nil_append] at hip
    rwa [hrecorded.length_eq]
  obtain ⟨before, after, step, hbefore, hafter, hadds, hstep⟩ :=
    record_of_appendAll hstart haccepted ip hlength
  rw [hlog, List.length_nil, Nat.zero_add, List.getElem?_eq_getElem hip] at hstep
  rw [Option.some_inj.mp hstep]
  exact ⟨_, before, after, List.getElem?_eq_getElem hlength, hbefore, hafter, hadds⟩

end Circuit

end QuditSim
