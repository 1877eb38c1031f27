import QuditSim.Proofs.Circuit.Walking
import QuditSim.Workbench.Circuits
import QuditSim.Workbench.Cursors

/-!
# Circuits and cursors on a workbench

On a workbench circuits grow while cursors stand over them: a cursor may have been put on a circuit
without steps, or past the last step of one that was appended to later, and it may be a copy of one
that has not looked at its circuit for long. Whatever is done, every cursor stands at a place of its
circuit.

- `Bench.outcome` is what an operation ends with, and the section on it says so for each of them.
- `Workbench.Act` is one thing that is done with circuits and cursors, and `Workbench.asked` reads off
  a sequence of them what was asked of one circuit.
- `Workbench.Orderly` is the invariant, and `Workbench.Grown` says what became of the circuits.
  `Workbench.Orderly.act` is the step lemma for both and `Workbench.Orderly.acts` the run lemma.
-/

namespace QuditSim

open Fallible

/-! ## How operations end -/

/-- The answer or the fault that an operation ends with, and the workbench after it. -/
def Bench.outcome {α : Type} (x : Bench α) (bench : Workbench) :
    Except WorkbenchFault α × Workbench :=
  x.run.run bench

namespace Workbench

section Outcomes

variable {α β : Type} {bench bench' : Workbench}

/-- A sequence goes on from where its first part ended. -/
theorem outcome_bind_ok {x : Bench α} {f : α → Bench β} {a : α}
    (h : x.outcome bench = (.ok a, bench')) : (x >>= f).outcome bench = (f a).outcome bench' :=
  run_bind_of_ok h

/-- A sequence ends where its first part failed. -/
theorem outcome_bind_error {x : Bench α} {f : α → Bench β} {fault : WorkbenchFault}
    (h : x.outcome bench = (.error fault, bench')) :
    (x >>= f).outcome bench = (.error fault, bench') :=
  run_bind_of_error h

/-- What is found is the answer, and what is not there has no name. -/
theorem outcome_found (bench : Workbench) (value : Option α) :
    (found value).outcome bench = (value.elim (.error .noSuchName) .ok, bench) := by
  cases value <;> rfl

theorem outcome_circuitAt (bench : Workbench) (serial : Nat) :
    (circuitAt serial).outcome bench =
      (bench.circuits[serial]?.elim (.error .noSuchName) .ok, bench) :=
  outcome_found _ _

theorem outcome_cursor (bench : Workbench) (name : String) :
    (cursor name).outcome bench =
      ((bench.cursors.lookup name).elim (.error .noSuchName) .ok, bench) :=
  outcome_found _ _

/-- The circuit that a name stands for on a workbench. -/
def named? (bench : Workbench) (name : String) : Option (Circuit Float) :=
  (bench.names.lookup name).bind (bench.circuits[·]?)

theorem outcome_circuit (bench : Workbench) (name : String) :
    (circuit name).outcome bench = ((bench.named? name).elim (.error .noSuchName) .ok, bench) := by
  have hserial : (serialOf name).outcome bench =
      ((bench.names.lookup name).elim (.error .noSuchName) .ok, bench) := outcome_found _ _
  unfold circuit named?
  cases hname : bench.names.lookup name with
  | none =>
    rw [hname] at hserial
    exact outcome_bind_error hserial
  | some serial =>
    rw [hname] at hserial
    rw [outcome_bind_ok hserial]
    exact outcome_circuitAt bench serial

/-- The circuit that a cursor is attached to, if it is there, or that it is attached to none. -/
def circuitOf? (bench : Workbench) (placed : PlacedCursor) : Option (Option (Circuit Float)) :=
  match placed.circuit with
  | some serial => bench.circuits[serial]?.map some
  | none => some none

theorem circuitOf?_of_getElem? {placed : PlacedCursor} {serial : Nat} {c : Circuit Float}
    (hcircuit : placed.circuit = some serial) (hserial : bench.circuits[serial]? = some c) :
    bench.circuitOf? placed = some (some c) := by
  simp [circuitOf?, hcircuit, hserial]

theorem outcome_attached {placed : PlacedCursor} {c : Option (Circuit Float)}
    (h : bench.circuitOf? placed = some c) :
    (attached placed).outcome bench = (.ok c, bench) := by
  obtain ⟨serial, cursor⟩ := placed
  cases serial with
  | none =>
    cases h
    rfl
  | some serial =>
    obtain ⟨c, hc, rfl⟩ := Option.map_eq_some_iff.mp h
    have hat := outcome_circuitAt bench serial
    rw [hc] at hat
    exact outcome_bind_ok hat

/-- A workbench on which a cursor has a name. -/
def withCursor (bench : Workbench) (name : String) (placed : PlacedCursor) : Workbench :=
  { bench with cursors := withNamed bench.cursors name placed }

/-- An operation on a cursor that is not there fails. -/
theorem outcome_moveCursor_none {name : String}
    {f : Option (Circuit Float) → Cursor → Except Failure (α × Cursor)}
    (hname : bench.cursors.lookup name = none) :
    (moveCursor name f).outcome bench = (.error .noSuchName, bench) := by
  have hcursor := outcome_cursor bench name
  rw [hname] at hcursor
  exact outcome_bind_error hcursor

/-- An operation on a cursor puts the cursor back that it made, unless it failed: then the workbench
is as it was. -/
theorem outcome_moveCursor {name : String} {placed : PlacedCursor} {c : Option (Circuit Float)}
    (f : Option (Circuit Float) → Cursor → Except Failure (α × Cursor))
    (hname : bench.cursors.lookup name = some placed) (hc : bench.circuitOf? placed = some c) :
    (moveCursor name f).outcome bench =
      match f c placed.cursor with
      | .ok (value, cursor) => (.ok value, bench.withCursor name { placed with cursor })
      | .error failure => (.error (.cursor failure), bench) := by
  have hcursor := outcome_cursor bench name
  rw [hname] at hcursor
  unfold moveCursor
  rw [outcome_bind_ok hcursor, outcome_bind_ok (outcome_attached hc)]
  cases f c placed.cursor with
  | error failure => rfl
  | ok made => rfl

end Outcomes

/-! ## Acts -/

/-- A plan for a circuit leads to one with a number. -/
def CircuitPlan.Makes [Capacity] (plan : CircuitPlan) (serial : Nat) (c : Circuit Float) : Prop :=
  Circuit.create? serial plan.qudits plan.dits plan.dim plan.title plan.namer plan.keyOf = .ok c

/-- What is done with the circuits of a workbench and with the cursors over them. -/
inductive Act where
  /-- A circuit is made. -/
  | create (name : String) (plan : CircuitPlan)
  /-- A circuit is asked for a step. -/
  | append (name : String) (call : Call Float)
  /-- A cursor is put on a circuit or on none. -/
  | put (name circuit : String) (place : CursorPlace)
  /-- A cursor is copied. -/
  | copy (name copyName : String)
  /-- A cursor is asked for the sort of its step. -/
  | learn (name : String)
  /-- A cursor is advanced. -/
  | advance (name : String)
  /-- A cursor is read. -/
  | deref (name : String)
  /-- A cursor is read and advanced. -/
  | next (name : String)
  /-- A cursor is read to the end. -/
  | drain (name : String)
  /-- Two cursors are compared. -/
  | compare (a b : String)

/-- The workbench after an act, whether it succeeded or failed. -/
def after [Capacity] (bench : Workbench) : Act → Workbench
  | .create name plan => ((createCircuit name plan).outcome bench).2
  | .append name call => ((append name call).outcome bench).2
  | .put name circuit place => ((createCursor name circuit place).outcome bench).2
  | .copy name copyName => ((copyCursor name copyName).outcome bench).2
  | .learn name => ((learn name).outcome bench).2
  | .advance name => ((advance name).outcome bench).2
  | .deref name => ((deref name).outcome bench).2
  | .next name => ((next name).outcome bench).2
  | .drain name => ((drain name).outcome bench).2
  | .compare a b => ((sameCursor a b).outcome bench).2

/-- The workbench after a sequence of acts. -/
def afterAll [Capacity] (bench : Workbench) (acts : List Act) : Workbench := acts.foldl after bench

/-- What an act asks of the circuit with a number. -/
def callsTo (bench : Workbench) (serial : Nat) : Act → List (Call Float)
  | .append name call => if bench.names.lookup name = some serial then [call] else []
  | _ => []

/-- What a sequence of acts asks of the circuit with a number. A name stands for the circuit that was
given it last. -/
def asked [Capacity] (serial : Nat) : Workbench → List Act → List (Call Float)
  | _, [] => []
  | bench, act :: acts => bench.callsTo serial act ++ asked serial (bench.after act) acts

/-! ## The invariant -/

end Workbench

/-- A cursor stands at a place of its circuit; one without a circuit is as it was made. -/
def Cursor.Stands {S : Type} (c : Option (Circuit S)) (cursor : Cursor) : Prop :=
  match c with
  | some c => cursor.Placed c
  | none => cursor = .unattached

namespace Workbench

variable {bench bench' bench'' : Workbench}

/-- A cursor stands at a place of the circuit that it is attached to. -/
def Sits (bench : Workbench) (placed : PlacedCursor) : Prop :=
  ∃ c, bench.circuitOf? placed = some c ∧ placed.cursor.Stands c

/-- A workbench is in order. -/
structure Orderly (bench : Workbench) : Prop where
  /-- The number of a circuit is its place. -/
  serial_eq : ∀ serial (c : Circuit Float), bench.circuits[serial]? = some c → c.serial = serial
  /-- The lists of each circuit fit together. -/
  ordered : ∀ c ∈ bench.circuits, c.Ordered
  /-- Names stand for circuits. -/
  names : ∀ entry ∈ bench.names, entry.2 < bench.circuits.length
  /-- Every cursor stands at a place of its circuit. -/
  sits : ∀ entry ∈ bench.cursors, bench.Sits entry.2

theorem orderly_start (draws : Draws Float) (checking : Bool) : (start draws checking).Orderly :=
  ⟨nofun, nofun, nofun, nofun⟩

theorem Orderly.ordered_of_getElem? (h : bench.Orderly) {serial : Nat} {c : Circuit Float}
    (hc : bench.circuits[serial]? = some c) : c.Ordered :=
  h.ordered c (List.mem_of_getElem? hc)

theorem mem_withNamed {α : Type} {entries : List (String × α)} {name : String} {value : α}
    {entry : String × α} (h : entry ∈ withNamed entries name value) :
    entry = (name, value) ∨ entry ∈ entries := by
  rcases List.mem_cons.mp h with h | h
  · exact .inl h
  · exact .inr (List.mem_of_mem_filter h)

theorem mem_of_lookup {α : Type} {entries : List (String × α)} {name : String} {value : α}
    (h : entries.lookup name = some value) : (name, value) ∈ entries := by
  obtain ⟨before, behind, rfl, -⟩ := List.lookup_eq_some_iff.mp h
  exact List.mem_append_right _ List.mem_cons_self

/-- A cursor that has a name stands at a place of what it is attached to. -/
theorem Orderly.stands_of_lookup (h : bench.Orderly) {name : String} {placed : PlacedCursor}
    {c : Option (Circuit Float)} (hname : bench.cursors.lookup name = some placed)
    (hc : bench.circuitOf? placed = some c) : placed.cursor.Stands c := by
  obtain ⟨_, hc', hstands⟩ := h.sits _ (mem_of_lookup hname)
  obtain rfl := Option.some.inj (hc.symm.trans hc')
  exact hstands

/-- A name that stands for a circuit stands for the one with that number. -/
theorem Orderly.lookup_of_named? (h : bench.Orderly) {name : String} {c : Circuit Float}
    (hc : bench.named? name = some c) :
    bench.names.lookup name = some c.serial ∧ bench.circuits[c.serial]? = some c := by
  obtain ⟨serial, hname, hserial⟩ := Option.bind_eq_some_iff.mp hc
  obtain rfl := h.serial_eq serial c hserial
  exact ⟨hname, hserial⟩

/-- Two workbenches differ in nothing that has to do with circuits. -/
structure SameCircuits (bench bench' : Workbench) : Prop where
  /-- There are the same circuits. -/
  circuits_eq : bench'.circuits = bench.circuits
  /-- They have the same names. -/
  names_eq : bench'.names = bench.names

/-- An operation on cursors keeps a workbench in order, and does nothing to the circuits. -/
def MovesCursors {α : Type} (x : Bench α) : Prop :=
  ∀ bench : Workbench, bench.Orderly →
    (x.outcome bench).2.Orderly ∧ bench.SameCircuits (x.outcome bench).2

section Moving

variable {α β : Type}

theorem Orderly.withCursor (h : bench.Orderly) (name : String) {placed : PlacedCursor}
    (hplaced : bench.Sits placed) :
    (bench.withCursor name placed).Orderly ∧ bench.SameCircuits (bench.withCursor name placed) := by
  refine ⟨⟨h.serial_eq, h.ordered, h.names, fun entry hentry => ?_⟩, rfl, rfl⟩
  rcases mem_withNamed hentry with rfl | hentry
  · exact hplaced
  · exact h.sits entry hentry

theorem movesCursors_of_unchanged {x : Bench α} (h : ∀ bench, (x.outcome bench).2 = bench) :
    MovesCursors x := by
  intro bench hbench
  rw [h bench]
  exact ⟨hbench, rfl, rfl⟩

theorem movesCursors_bind {x : Bench α} {f : α → Bench β} (hx : MovesCursors x)
    (hf : ∀ a, MovesCursors (f a)) : MovesCursors (x >>= f) := by
  intro bench hbench
  obtain ⟨hafter, hsame⟩ := hx bench hbench
  cases hout : x.outcome bench with
  | mk answer between =>
    rw [hout] at hafter hsame
    cases answer with
    | error fault =>
      rw [outcome_bind_error hout]
      exact ⟨hafter, hsame⟩
    | ok a =>
      obtain ⟨hend, hsame'⟩ := hf a between hafter
      rw [outcome_bind_ok hout]
      exact ⟨hend, hsame'.circuits_eq.trans hsame.circuits_eq,
        hsame'.names_eq.trans hsame.names_eq⟩

/-- An operation that leaves a cursor at a place of its circuit moves it. -/
theorem movesCursors_moveCursor (name : String)
    {f : Option (Circuit Float) → Cursor → Except Failure (α × Cursor)}
    (hf : ∀ c cursor value cursor', (∀ made ∈ c, made.Ordered) → cursor.Stands c →
      f c cursor = .ok (value, cursor') → cursor'.Stands c) :
    MovesCursors (moveCursor name f) := by
  intro bench hbench
  cases hname : bench.cursors.lookup name with
  | none =>
    rw [outcome_moveCursor_none hname]
    exact ⟨hbench, rfl, rfl⟩
  | some placed =>
    obtain ⟨c, hc, hstands⟩ := hbench.sits _ (mem_of_lookup hname)
    rw [outcome_moveCursor f hname hc]
    cases hmade : f c placed.cursor with
    | error failure => exact ⟨hbench, rfl, rfl⟩
    | ok made =>
      obtain ⟨value, cursor⟩ := made
      refine hbench.withCursor name ⟨c, hc, hf c _ value cursor ?_ hstands hmade⟩
      -- the circuit of the cursor is one of the workbench
      rintro attached ⟨⟩
      unfold circuitOf? at hc
      split at hc
      · obtain ⟨_, hserial, ⟨⟩⟩ := Option.map_eq_some_iff.mp hc
        exact hbench.ordered_of_getElem? hserial
      · cases hc

/-- A cursor that looks at its circuit stays at its place. -/
theorem stands_refresh {c : Option (Circuit Float)} {cursor : Cursor}
    (hc : ∀ made ∈ c, made.Ordered) (h : cursor.Stands c) : (cursor.refresh c).Stands c := by
  cases c with
  | none => exact h
  | some c => exact Cursor.Placed.refresh h (hc c rfl)

theorem movesCursors_learn (name : String) : MovesCursors (learn name) :=
  movesCursors_moveCursor name fun c cursor value cursor' hc h hmade => by
    cases hmade
    exact stands_refresh hc h

theorem movesCursors_advance (name : String) : MovesCursors (advance name) :=
  movesCursors_moveCursor name fun c cursor value cursor' hc h hmade => by
    obtain ⟨next, hnext, ⟨⟩⟩ := map_eq_ok.mp hmade
    cases c with
    | none => cases hnext
    | some c =>
      have hordered := hc c rfl
      rcases Nat.lt_or_ge cursor.ip c.stepCount with hip | hip
      · rw [Cursor.Placed.advance h hordered (by rwa [hordered.length_log])] at hnext
        cases hnext
        exact Cursor.placed_onStep hordered hip
      · obtain ⟨failure, hfailure, -⟩ := Cursor.advance_atEnd hip
        rw [hfailure] at hnext
        cases hnext

theorem movesCursors_deref (name : String) : MovesCursors (deref name) :=
  movesCursors_moveCursor name fun c cursor value cursor' hc h hmade => by
    cases c with
    | none => cases hmade
    | some c =>
      have hordered := hc c rfl
      rcases Nat.lt_or_ge cursor.ip c.stepCount with hip | hip
      · rw [Cursor.Placed.deref h hordered (by rwa [hordered.length_log])] at hmade
        cases hmade
        exact Cursor.placed_onStep hordered (Nat.le_of_lt hip)
      · rw [Cursor.deref_atEnd hip] at hmade
        cases hmade

theorem movesCursors_next (name : String) : MovesCursors (next name) :=
  movesCursors_moveCursor name fun c cursor value cursor' hc h hmade => by
    cases c with
    | none =>
      cases hmade
      exact h
    | some c =>
      have hordered := hc c rfl
      rw [Option.bind_some] at hmade
      rcases Nat.lt_or_ge cursor.ip c.stepCount with hip | hip
      · rw [Cursor.Placed.next? h hordered (by rwa [hordered.length_log])] at hmade
        cases hmade
        exact Cursor.placed_onStep hordered hip
      · rw [Cursor.next?_atEnd hip] at hmade
        cases hmade
        exact h

theorem movesCursors_drain (name : String) : MovesCursors (drain name) :=
  movesCursors_moveCursor name fun c cursor value cursor' hc h hmade => by
    cases c with
    | none =>
      cases hmade
      exact h
    | some c =>
      obtain ⟨-, hplaced, -⟩ := Cursor.Placed.drain h (hc c rfl)
      rw [Except.ok.inj hmade] at hplaced
      exact hplaced

theorem movesCursors_sameCursor (a b : String) : MovesCursors (sameCursor a b) := by
  refine movesCursors_bind (movesCursors_of_unchanged fun bench => ?_) fun _ => ?_
  · rw [outcome_cursor]
  · refine movesCursors_bind (movesCursors_learn a) fun _ => ?_
    refine movesCursors_bind (movesCursors_learn b) fun _ => ?_
    exact movesCursors_of_unchanged fun _ => rfl

theorem movesCursors_copyCursor (name copyName : String) :
    MovesCursors (copyCursor name copyName) := by
  intro bench hbench
  have hcursor := outcome_cursor bench name
  unfold copyCursor
  cases hname : bench.cursors.lookup name with
  | none =>
    rw [hname] at hcursor
    rw [outcome_bind_error hcursor]
    exact ⟨hbench, rfl, rfl⟩
  | some placed =>
    rw [hname] at hcursor
    rw [outcome_bind_ok hcursor]
    exact hbench.withCursor copyName (hbench.sits _ (mem_of_lookup hname))

/-- A cursor that is put on a circuit where it makes sense stands at a place of it. -/
theorem movesCursors_putOn (name circuitName : String) {put : Circuit Float → Cursor}
    (hput : ∀ c : Circuit Float, c.Ordered → (put c).Placed c) :
    MovesCursors (circuit circuitName >>= fun c => putCursor name ⟨some c.serial, put c⟩) := by
  intro bench hbench
  have hcircuit := outcome_circuit bench circuitName
  cases hnamed : bench.named? circuitName with
  | none =>
    rw [hnamed] at hcircuit
    rw [outcome_bind_error hcircuit]
    exact ⟨hbench, rfl, rfl⟩
  | some c =>
    obtain ⟨-, hserial⟩ := hbench.lookup_of_named? hnamed
    rw [hnamed] at hcircuit
    rw [outcome_bind_ok hcircuit]
    exact hbench.withCursor name ⟨some c, circuitOf?_of_getElem? rfl hserial,
      hput c (hbench.ordered_of_getElem? hserial)⟩

theorem movesCursors_createCursor (name circuitName : String) (place : CursorPlace) :
    MovesCursors (createCursor name circuitName place) := by
  cases place with
  | nowhere => exact fun bench hbench => hbench.withCursor name ⟨none, rfl, rfl⟩
  | start => exact movesCursors_putOn name circuitName fun _ => Cursor.placed_start
  | finish => exact movesCursors_putOn name circuitName fun _ => Cursor.placed_finish

end Moving

/-! ## What becomes of the circuits -/

/-- Between two workbenches the circuits were asked for steps, each of them as the list for its number
says, and new circuits were made. -/
structure Grown [Capacity] (bench bench' : Workbench) (calls : Nat → List (Call Float)) : Prop where
  /-- What was there was asked for steps. -/
  kept : ∀ serial (c : Circuit Float), bench.circuits[serial]? = some c →
    bench'.circuits[serial]? = some (c.attemptAll (calls serial))
  /-- What is new was made, and asked for steps then. -/
  fresh : ∀ serial c, bench.circuits[serial]? = none → bench'.circuits[serial]? = some c →
    ∃ plan made, CircuitPlan.Makes plan serial made ∧ c = made.attemptAll (calls serial)
  /-- What is not there was asked for nothing. -/
  silent : ∀ serial, bench'.circuits[serial]? = none → calls serial = []

theorem grown_of_sameCircuits [Capacity] (h : bench.SameCircuits bench') :
    bench.Grown bench' fun _ => [] where
  kept serial c hc := by
    rw [h.circuits_eq]
    exact hc
  fresh serial c hnone hc := by
    rw [h.circuits_eq, hnone] at hc
    cases hc
  silent _ _ := rfl

theorem attemptAll_append (c : Circuit Float) (calls more : List (Call Float)) :
    c.attemptAll (calls ++ more) = (c.attemptAll calls).attemptAll more := List.foldl_append

theorem Grown.trans [Capacity] {calls more : Nat → List (Call Float)} (h : bench.Grown bench' calls)
    (h' : bench'.Grown bench'' more) :
    bench.Grown bench'' fun serial => calls serial ++ more serial where
  kept serial c hc := by
    rw [attemptAll_append]
    exact h'.kept serial _ (h.kept serial c hc)
  fresh serial c hnone hc := by
    cases hbetween : bench'.circuits[serial]? with
    | none =>
      rw [h.silent serial hbetween]
      exact h'.fresh serial c hbetween hc
    | some between =>
      obtain ⟨plan, made, hmade, rfl⟩ := h.fresh serial between hnone hbetween
      have hkept := h'.kept serial _ hbetween
      rw [hkept] at hc
      refine ⟨plan, made, hmade, ?_⟩
      rw [attemptAll_append]
      exact (Option.some_inj.mp hc).symm
  silent serial hnone := by
    have hbetween : bench'.circuits[serial]? = none := by
      by_contra hsome
      obtain ⟨c, hc⟩ := Option.ne_none_iff_exists'.mp hsome
      rw [h'.kept serial c hc] at hnone
      cases hnone
    rw [h.silent serial hbetween, h'.silent serial hnone, List.append_nil]

theorem ordered_attemptAll {c : Circuit Float} (h : c.Ordered) (calls : List (Call Float)) :
    (c.attemptAll calls).Ordered :=
  Circuit.attemptAll_keeps (fun _ hc _ _ entry _ _ => (hc.commit entry).2) h

theorem serial_attemptAll (c : Circuit Float) (calls : List (Call Float)) :
    (c.attemptAll calls).serial = c.serial :=
  Circuit.attemptAll_keeps (P := fun c' => c'.serial = c.serial)
    (fun _ hc _ _ entry _ _ => by cases entry <;> exact hc) rfl

/-- A circuit that was made has the number that it was made with, and no steps. -/
theorem CircuitPlan.Makes.start [Capacity] {plan : CircuitPlan} {serial : Nat}
    {made : Circuit Float} (h : plan.Makes serial made) :
    made.serial = serial ∧ made.Ordered ∧ made.log = [] := by
  obtain ⟨n, m, d, namer, rfl⟩ := Circuit.create?_eq_ok h
  exact ⟨rfl, ⟨rfl, rfl, rfl⟩, rfl⟩

/-- A cursor stays at its place while circuits grow. -/
theorem Sits.grown [Capacity] {placed : PlacedCursor} {calls : Nat → List (Call Float)}
    (h : bench.Sits placed) (hbench : bench.Orderly) (hgrown : bench.Grown bench' calls) :
    bench'.Sits placed := by
  obtain ⟨serial, cursor⟩ := placed
  obtain ⟨c, hc, hstands⟩ := h
  cases serial with
  | none => exact ⟨c, hc, hstands⟩
  | some serial =>
    obtain ⟨c, hserial, rfl⟩ := Option.map_eq_some_iff.mp hc
    have hordered := hbench.ordered_of_getElem? hserial
    have hextends := Circuit.extends_attemptAll hordered (calls serial)
    refine ⟨some (c.attemptAll (calls serial)), ?_, ?_⟩
    · simp [circuitOf?, hgrown.kept serial c hserial]
    · exact Cursor.Placed.mono hstands
        (hextends.order_prefix hordered (ordered_attemptAll hordered _))

/-- A workbench stays in order while circuits grow. -/
theorem Orderly.grown [Capacity] {calls : Nat → List (Call Float)} (h : bench.Orderly)
    (hgrown : bench.Grown bench' calls) (hcursors : bench'.cursors = bench.cursors)
    (hnames : ∀ entry ∈ bench'.names, entry.2 < bench'.circuits.length) : bench'.Orderly := by
  -- every circuit is an old one or a new one that was asked for steps
  have hcircuit : ∀ serial (c : Circuit Float), bench'.circuits[serial]? = some c →
      c.serial = serial ∧ c.Ordered := by
    intro serial c hc
    cases hold : bench.circuits[serial]? with
    | some old =>
      rw [hgrown.kept serial old hold] at hc
      cases hc
      rw [serial_attemptAll]
      exact ⟨h.serial_eq serial old hold, ordered_attemptAll (h.ordered_of_getElem? hold) _⟩
    | none =>
      obtain ⟨plan, made, hmade, rfl⟩ := hgrown.fresh serial c hold hc
      obtain ⟨hserial, hordered, -⟩ := hmade.start
      rw [serial_attemptAll]
      exact ⟨hserial, ordered_attemptAll hordered _⟩
  refine ⟨fun serial c hc => (hcircuit serial c hc).1, fun c hc => ?_, hnames, ?_⟩
  · obtain ⟨serial, hserial⟩ := List.mem_iff_getElem?.mp hc
    exact (hcircuit serial c hserial).2
  · rw [hcursors]
    exact fun entry hentry => (h.sits entry hentry).grown h hgrown

/-- A circuit that cannot be made leaves the workbench as it is, and one that is made comes last and
gets its name. -/
theorem after_create [Capacity] (bench : Workbench) (name : String) (plan : CircuitPlan) :
    bench.after (.create name plan) = bench ∨
      ∃ made, plan.Makes bench.circuits.length made ∧
        bench.after (.create name plan) =
          { bench with
            circuits := bench.circuits ++ [made],
            names := withNamed bench.names name made.serial } := by
  have hserial : nextSerial.outcome bench = (.ok bench.circuits.length, bench) := rfl
  unfold after createCircuit
  dsimp only
  rw [outcome_bind_ok hserial]
  cases hmade : Circuit.create? bench.circuits.length plan.qudits plan.dits plan.dim plan.title
      plan.namer plan.keyOf with
  | error fault => exact .inl rfl
  | ok made => exact .inr ⟨made, hmade, rfl⟩

/-- A call to a circuit leaves what the circuit became, whether it was accepted or refused. -/
theorem Orderly.after_append [Capacity] (h : bench.Orderly) {name : String} {c : Circuit Float}
    (hnamed : bench.named? name = some c) (call : Call Float) :
    ∃ events, bench.after (.append name call) =
      { bench with circuits := bench.circuits.set c.serial (c.attempt call), events } := by
  have hcircuit := outcome_circuit bench name
  rw [hnamed] at hcircuit
  have htold : (tell (c.events call)).outcome bench =
      (.ok (), { bench with events := bench.events ++ c.events call }) := rfl
  refine ⟨bench.events ++ c.events call, ?_⟩
  unfold after append
  dsimp only
  rw [outcome_bind_ok hcircuit, outcome_bind_ok htold]
  unfold Circuit.attempt
  cases hcall : c.append call with
  | error fault =>
    -- a refused call puts nothing back
    obtain ⟨hlt, hget⟩ := List.getElem?_eq_some_iff.mp (h.lookup_of_named? hnamed).2
    have hset := List.set_getElem_self hlt
    rw [hget] at hset
    dsimp only
    rw [hset]
    rfl
  | ok c' =>
    obtain ⟨entry, -, -, rfl⟩ := Circuit.append_eq_ok.mp hcall
    cases entry <;> rfl

theorem after_append_none [Capacity] {name : String} (hnamed : bench.named? name = none)
    (call : Call Float) : bench.after (.append name call) = bench := by
  have hcircuit := outcome_circuit bench name
  rw [hnamed] at hcircuit
  unfold after append
  dsimp only
  rw [outcome_bind_error hcircuit]

/-- A name that stands for no circuit was given to none. -/
theorem Orderly.lookup_of_named?_none (h : bench.Orderly) {name : String}
    (hnamed : bench.named? name = none) : bench.names.lookup name = none := by
  by_contra hsome
  obtain ⟨serial, hserial⟩ := Option.ne_none_iff_exists'.mp hsome
  have hlt := h.names _ (mem_of_lookup hserial)
  rw [named?, hserial, Option.bind_some, List.getElem?_eq_none_iff] at hnamed
  exact Nat.not_lt_of_ge hnamed hlt

/-- A circuit that is put behind the others is new. -/
theorem grown_concat [Capacity] {plan : CircuitPlan} {made : Circuit Float}
    (hmade : plan.Makes bench.circuits.length made)
    (hcircuits : bench'.circuits = bench.circuits ++ [made]) : bench.Grown bench' fun _ => [] where
  kept serial c hc := by
    rw [hcircuits, List.getElem?_append_left (List.getElem?_eq_some_iff.mp hc).1]
    exact hc
  fresh serial c hnone hc := by
    -- the only new place is the last one
    have hle := List.getElem?_eq_none_iff.mp hnone
    have hlt := (List.getElem?_eq_some_iff.mp hc).1
    rw [hcircuits, List.length_append, List.length_singleton] at hlt
    obtain rfl : serial = bench.circuits.length := by omega
    rw [hcircuits, List.getElem?_concat_length] at hc
    cases hc
    exact ⟨plan, made, hmade, rfl⟩
  silent _ _ := rfl

/-- Of the circuits, the one that a name stands for is asked for a step. -/
theorem Orderly.grown_set [Capacity] (h : bench.Orderly) {name : String} {c : Circuit Float}
    (hnamed : bench.named? name = some c) {call : Call Float}
    (hcircuits : bench'.circuits = bench.circuits.set c.serial (c.attempt call)) :
    bench.Grown bench' fun serial => bench.callsTo serial (.append name call) := by
  obtain ⟨hname, hserial⟩ := h.lookup_of_named? hnamed
  have hlt := (List.getElem?_eq_some_iff.mp hserial).1
  refine ⟨fun serial old hold => ?_, fun serial new hnone hnew => ?_, fun serial hnone => ?_⟩
  · rw [hcircuits]
    by_cases hthis : serial = c.serial
    · subst hthis
      obtain rfl := Option.some_inj.mp (hserial.symm.trans hold)
      simp [callsTo, hname, hlt, Circuit.attemptAll]
    · have hother : ¬ c.serial = serial := fun heq => hthis heq.symm
      simp [callsTo, hname, hother, hold, Circuit.attemptAll]
  · -- no place is new
    have hle := List.getElem?_eq_none_iff.mp hnone
    have hlt' := (List.getElem?_eq_some_iff.mp hnew).1
    rw [hcircuits, List.length_set] at hlt'
    omega
  · rw [hcircuits, List.getElem?_eq_none_iff, List.length_set] at hnone
    have hother : ¬ c.serial = serial := by omega
    simp [callsTo, hname, hother]

/-- An act keeps a workbench in order, and a circuit is asked for a step only by its name. -/
theorem Orderly.act [Capacity] (h : bench.Orderly) (act : Act) :
    (bench.after act).Orderly ∧
      bench.Grown (bench.after act) fun serial => bench.callsTo serial act := by
  -- what moves cursors only does nothing to circuits
  have hmoves : ∀ {α : Type} {x : Bench α}, MovesCursors x →
      (x.outcome bench).2.Orderly ∧ bench.Grown (x.outcome bench).2 fun _ => [] := by
    intro α x hx
    obtain ⟨horderly, hsame⟩ := hx bench h
    exact ⟨horderly, grown_of_sameCircuits hsame⟩
  cases act with
  | create name plan =>
    rcases after_create bench name plan with hafter | ⟨made, hmade, hafter⟩
    · rw [hafter]
      exact ⟨h, grown_of_sameCircuits ⟨rfl, rfl⟩⟩
    · have hgrown : bench.Grown (bench.after (.create name plan)) fun _ => [] :=
        grown_concat hmade (by rw [hafter])
      refine ⟨h.grown hgrown (by rw [hafter]) fun entry hentry => ?_, hgrown⟩
      rw [hafter] at hentry ⊢
      show entry.2 < (bench.circuits ++ [made]).length
      rw [List.length_append, List.length_singleton]
      rcases mem_withNamed hentry with rfl | hentry
      · exact Nat.lt_succ_of_le (Nat.le_of_eq hmade.start.1)
      · exact Nat.lt_succ_of_lt (h.names entry hentry)
  | append name call =>
    cases hnamed : bench.named? name with
    | none =>
      have hcalls : (fun serial => bench.callsTo serial (.append name call)) = fun _ => [] := by
        funext serial
        simp [callsTo, h.lookup_of_named?_none hnamed]
      rw [after_append_none hnamed, hcalls]
      exact ⟨h, grown_of_sameCircuits ⟨rfl, rfl⟩⟩
    | some c =>
      obtain ⟨events, hafter⟩ := h.after_append hnamed call
      have hgrown : bench.Grown (bench.after (.append name call)) fun serial =>
          bench.callsTo serial (.append name call) := h.grown_set hnamed (by rw [hafter])
      refine ⟨h.grown hgrown (by rw [hafter]) fun entry hentry => ?_, hgrown⟩
      rw [hafter] at hentry ⊢
      show entry.2 < (bench.circuits.set _ _).length
      rw [List.length_set]
      exact h.names entry hentry
  | put name circuitName place => exact hmoves (movesCursors_createCursor name circuitName place)
  | copy name copyName => exact hmoves (movesCursors_copyCursor name copyName)
  | learn name => exact hmoves (movesCursors_learn name)
  | advance name => exact hmoves (movesCursors_advance name)
  | deref name => exact hmoves (movesCursors_deref name)
  | next name => exact hmoves (movesCursors_next name)
  | drain name => exact hmoves (movesCursors_drain name)
  | compare a b => exact hmoves (movesCursors_sameCursor a b)

/-- A sequence of acts keeps a workbench in order, and each circuit was asked for the steps that the
acts asked of it. -/
theorem Orderly.acts [Capacity] (h : bench.Orderly) (acts : List Act) :
    (bench.afterAll acts).Orderly ∧
      bench.Grown (bench.afterAll acts) fun serial => asked serial bench acts := by
  induction acts generalizing bench with
  | nil => exact ⟨h, grown_of_sameCircuits ⟨rfl, rfl⟩⟩
  | cons act acts ih =>
    obtain ⟨hafter, hgrown⟩ := h.act act
    obtain ⟨hend, hgrown'⟩ := ih hafter
    exact ⟨hend, hgrown.trans hgrown'⟩

end Workbench

end QuditSim
