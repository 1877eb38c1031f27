import QuditSim.Engine.Execution

/-!
# How executions end

`Execution.Ends` says how an execution ends from a given run: with a value and a run of which one
statement holds, or with a fault and a run of which another one holds. One rule for each
elementary execution takes such a statement apart.

- `Execution.ends_bind` and `Execution.Ends.mono` are the rules for sequences and for consequences.
- `Execution.Leaves` says what holds however an execution ends.
- `Execution.ends_forM_invariant` is the rule for the steps of a list.
-/

namespace QuditSim

namespace Execution

variable {S R α β : Type}

/-- The value or the fault that an execution ends with, and the run after it. -/
def outcome (x : Execution S R α) (run : Run S R) : Except EngineFault α × Run S R := x.run.run run

/-- The second part of a sequence goes on from where the first one ends, unless that failed. -/
theorem outcome_bind (x : Execution S R α) (f : α → Execution S R β) (run : Run S R) :
    (x >>= f).outcome run = match x.outcome run with
      | (.ok a, run') => (f a).outcome run'
      | (.error fault, run') => (.error fault, run') := by
  unfold outcome
  rw [ExceptT.run_bind, StateT.run_bind]
  generalize x.run.run run = ended
  obtain ⟨result, run'⟩ := ended
  cases result <;> rfl

/-- From a run, an execution ends with a value as `Q` says or with a fault as `E` says. -/
def Ends (x : Execution S R α) (run : Run S R) (Q : α → Run S R → Prop)
    (E : EngineFault → Run S R → Prop) : Prop :=
  match x.outcome run with
  | (.ok a, run') => Q a run'
  | (.error fault, run') => E fault run'

/-- However an execution ends from a run, `P` holds of the run after it. -/
def Leaves (x : Execution S R α) (run : Run S R) (P : Run S R → Prop) : Prop :=
  Ends x run (fun _ run' => P run') fun _ run' => P run'

section Rules

variable {run : Run S R} {E E' : EngineFault → Run S R → Prop}

/-- Weaker statements hold as well. -/
theorem Ends.mono {x : Execution S R α} {Q Q' : α → Run S R → Prop} (h : Ends x run Q E)
    (hQ : ∀ a run', Q a run' → Q' a run') (hE : ∀ fault run', E fault run' → E' fault run') :
    Ends x run Q' E' := by
  unfold Ends at h ⊢
  split at h
  · next a run' _ => exact hQ a run' h
  · next fault run' _ => exact hE fault run' h

/-- Two statements about how an execution ends hold together. -/
theorem Ends.and {x : Execution S R α} {Q Q' : α → Run S R → Prop} (h : Ends x run Q E)
    (h' : Ends x run Q' E') :
    Ends x run (fun a run' => Q a run' ∧ Q' a run')
      fun fault run' => E fault run' ∧ E' fault run' := by
  unfold Ends at h h' ⊢
  split at h
  · next heq =>
    rw [heq] at h'
    exact ⟨h, h'⟩
  · next heq =>
    rw [heq] at h'
    exact ⟨h, h'⟩

/-- What holds of the run after an execution is left by it. -/
theorem leaves_of_outcome {x : Execution S R α} {P : Run S R → Prop} (h : P (x.outcome run).2) :
    Leaves x run P := by
  unfold Leaves Ends
  split
  · next heq => rwa [heq] at h
  · next heq => rwa [heq] at h

/-- What an execution leaves holds of the run after it. -/
theorem Leaves.holds {x : Execution S R α} {P : Run S R → Prop} (h : Leaves x run P) :
    P (x.outcome run).2 := by
  unfold Leaves Ends at h
  split at h
  · next heq =>
    rw [heq]
    exact h
  · next heq =>
    rw [heq]
    exact h

/-- An execution that ends in one way only has that outcome. -/
theorem outcome_eq_of_ends {x : Execution S R α} {ended : Except EngineFault α × Run S R}
    (h : Ends x run (fun a run' => (.ok a, run') = ended) fun fault run' =>
      (.error fault, run') = ended) : x.outcome run = ended := by
  unfold Ends at h
  split at h
  · next heq => exact heq.trans h
  · next heq => exact heq.trans h

@[simp] theorem ends_pure {a : α} {Q : α → Run S R → Prop} :
    Ends (pure a : Execution S R α) run Q E ↔ Q a run := Iff.rfl

@[simp] theorem ends_throw {fault : EngineFault} {Q : α → Run S R → Prop} :
    Ends (throw fault : Execution S R α) run Q E ↔ E fault run := Iff.rfl

/-- A sequence ends as its second part does from where the first one ends. -/
@[simp] theorem ends_bind {x : Execution S R α} {f : α → Execution S R β}
    {Q : β → Run S R → Prop} :
    Ends (x >>= f) run Q E ↔ Ends x run (fun a run' => Ends (f a) run' Q E) E := by
  unfold Ends
  rw [outcome_bind]
  cases x.outcome run with
  | mk result run' => cases result <;> rfl

/-- A computation without a run ends as its result says. -/
@[simp] theorem ends_lift {x : Except EngineFault α} {Q : α → Run S R → Prop} :
    Ends (liftM x : Execution S R α) run Q E ↔
      match x with
      | .ok a => Q a run
      | .error fault => E fault run := by
  cases x <;> rfl

end Rules

section Elementary

open Engine

variable {run : Run S R} {E : EngineFault → Run S R → Prop}

@[simp] theorem ends_current {Q : Engine S R → Run S R → Prop} :
    Ends current run Q E ↔ Q run.engine run := Iff.rfl

@[simp] theorem ends_update {f : Engine S R → Engine S R} {Q : Unit → Run S R → Prop} :
    Ends (update f) run Q E ↔ Q () { run with engine := f run.engine } := Iff.rfl

@[simp] theorem ends_tell {logger text : String} {Q : Unit → Run S R → Prop} :
    Ends (tell logger text) run Q E ↔
      Q () { run with events := run.events ++ [⟨logger, text⟩] } := Iff.rfl

@[simp] theorem ends_tellAll {events : List Event} {Q : Unit → Run S R → Prop} :
    Ends (tellAll events) run Q E ↔ Q () { run with events := run.events ++ events } := Iff.rfl

theorem ends_get {Q : Run S R → Run S R → Prop} :
    Ends (get : Execution S R (Run S R)) run Q E ↔ Q run run := Iff.rfl

theorem ends_set {run' : Run S R} {Q : PUnit → Run S R → Prop} :
    Ends (set run' : Execution S R PUnit) run Q E ↔ Q ⟨⟩ run' := Iff.rfl

/-- Drawing ends as the computation that draws does, with what is left of chance. -/
@[simp] theorem ends_drawing {sampling : Sampling S α} {Q : α → Run S R → Prop} :
    Ends (drawing sampling) run Q E ↔
      match sampling.run.run run.draws with
      | (.ok a, draws) => Q a { run with draws := draws }
      | (.error fault, draws) => E (.state fault) { run with draws := draws } := by
  have hrun : sampling.run run.draws = sampling.run.run run.draws := rfl
  unfold drawing
  rw [ends_bind, ends_get, hrun]
  cases sampling.run.run run.draws with
  | mk result draws =>
    dsimp only
    rw [ends_bind, ends_set]
    cases result with
    | ok a => exact ends_pure
    | error fault => exact ends_throw

/-- The outcome of drawing is that of the computation that draws. -/
theorem outcome_drawing (sampling : Sampling S α) (run : Run S R) :
    (drawing sampling).outcome run = match sampling.run.run run.draws with
      | (.ok a, draws) => (.ok a, { run with draws := draws })
      | (.error fault, draws) => (.error (.state fault), { run with draws := draws }) := by
  refine outcome_eq_of_ends ?_
  rw [ends_drawing]
  rcases sampling.run.run run.draws with ⟨fault | a, draws⟩ <;> rfl

/-- Passing the state through a map ends as the map does. -/
@[simp] theorem ends_passThrough {map : StateVector R → Except StateFault (StateVector R)}
    {Q : Unit → Run S R → Prop} :
    Ends (passThrough map) run Q E ↔
      match map run.engine.state with
      | .ok state => Q () { run with engine := { run.engine with state := state } }
      | .error fault => E (.state fault) run := by
  unfold passThrough
  rw [ends_bind, ends_current]
  cases map run.engine.state <;> rfl

end Elementary

/-- What holds of a run before the first item of a list and is kept by each item holds after the
last one; a fault ends the list early. -/
theorem ends_forM_invariant {γ : Type} {items : List γ} {body : γ → Execution S R Unit}
    {run : Run S R} {E : EngineFault → Run S R → Prop} (I : Nat → Run S R → Prop) (h : I 0 run)
    (hstep : ∀ i (hi : i < items.length) run', I i run' →
      Ends (body items[i]) run' (fun _ run'' => I (i + 1) run'') E) :
    Ends (items.forM body) run (fun _ run' => I items.length run') E := by
  induction items generalizing I run with
  | nil => exact h
  | cons item items ih =>
    -- the invariant is counted on from the place after the first item
    show Ends (body item >>= fun _ => items.forM body) run _ E
    rw [ends_bind]
    refine (hstep 0 (Nat.zero_lt_succ _) run h).mono (fun _ run' hrun' => ?_) fun _ _ hE => hE
    refine ih (fun i => I (i + 1)) hrun' fun i hi run'' hrun'' => ?_
    exact hstep (i + 1) (Nat.succ_lt_succ hi) run'' hrun''

end Execution

end QuditSim
