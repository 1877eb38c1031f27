import QuditSim.Proofs.Workbench.Orderly

/-!
# What cursors do next

What a cursor does next depends on the steps that it has passed and on the circuit, and on nothing
that was done before: not on when the cursor was made or copied, nor on when it last looked at its
circuit.

- `Workbench.Past` is a circuit with the calls that led to it, and `Workbench.Shows` says that a view
  shows the step that one of the calls recorded.
- `Workbench.Follows` says how everything ends that can be done with a cursor over a circuit;
  `Workbench.Orderly.follows` reads it off a workbench that is in order.
- `Workbench.cursors_follow` is about any sequence of acts on an empty workbench.
-/

namespace QuditSim

namespace Workbench

variable {bench : Workbench}

/-- The past of a circuit: how it was made, and what it was asked for. -/
structure Past where
  /-- The circuit as it was made. -/
  made : Circuit Float
  /-- The calls to it, accepted or refused. -/
  calls : List (Call Float)

/-- The circuit with a past. -/
def Past.circuit (past : Past) : Circuit Float := past.made.attemptAll past.calls

/-- A view shows the step at a place of a circuit: the record of the accepted call at that place among
the accepted calls, with the place and the sort that is noted for it. -/
structure Shows (past : Past) (ip : Nat) (view : StepView) : Prop where
  /-- The view is one of a step of the circuit. -/
  origin_eq : view.origin = past.circuit.serial
  /-- It shows the place. -/
  ip_eq : view.ip = ip
  /-- It shows the sort of the step. -/
  kind_eq : view.kind = past.circuit.kindAt ip
  /-- It shows the record of the call. -/
  recordOf : past.made.RecordOf past.calls ip view.step

/-- Views show the steps of a circuit from a place on, in order and up to the last. -/
structure ShowsFrom (past : Past) (ip : Nat) (views : List StepView) : Prop where
  /-- There is one view for each step from the place on. -/
  length_eq : ip + views.length = past.circuit.stepCount
  /-- They show the steps in order. -/
  shows : ∀ i view, views[i]? = some view → Shows past (ip + i) view

/-- A fault says that a cursor can be neither moved nor read. -/
def InvalidCursor (fault : WorkbenchFault) : Prop :=
  ∃ failure, fault = .cursor failure ∧ failure.family = .invalidCursor

/-- All that changes on a workbench is that the cursor with a name stands at a place. -/
def MovedTo (bench after : Workbench) (name : String) (placed : PlacedCursor) (ip : Nat) : Prop :=
  ∃ cursor : Cursor, cursor.ip = ip ∧ after = bench.withCursor name { placed with cursor }

/-- How a cursor stands in a circuit with a past, and how everything that can be done with it ends. -/
structure Follows (bench : Workbench) (past : Past) (name : String) (placed : PlacedCursor) :
    Prop where
  /-- It stands at a place of the circuit. -/
  stands : placed.cursor.Placed past.circuit
  /-- The sort that it says is that of the step there, or none past the last step. -/
  kind_eq : (placed.cursor.refresh (some past.circuit)).kind = past.circuit.kindAt placed.cursor.ip
  /-- Reading it shows the step there, and fails past the last step. -/
  deref : match (Workbench.deref name).outcome bench with
    | (.ok view, after) =>
      placed.cursor.ip < past.circuit.stepCount ∧ Shows past placed.cursor.ip view ∧
        MovedTo bench after name placed placed.cursor.ip
    | (.error fault, after) =>
      placed.cursor.ip = past.circuit.stepCount ∧ InvalidCursor fault ∧ after = bench
  /-- Advancing it leads to the next place, and fails past the last step. -/
  advance : match (Workbench.advance name).outcome bench with
    | (.ok (), after) =>
      placed.cursor.ip < past.circuit.stepCount ∧
        MovedTo bench after name placed (placed.cursor.ip + 1)
    | (.error fault, after) =>
      placed.cursor.ip = past.circuit.stepCount ∧ InvalidCursor fault ∧ after = bench
  /-- Asking it for the next step shows the one there and leads to the next place. Past the last step
  there is none. -/
  next : match (Workbench.next name).outcome bench with
    | (.ok (some view), after) =>
      placed.cursor.ip < past.circuit.stepCount ∧ Shows past placed.cursor.ip view ∧
        MovedTo bench after name placed (placed.cursor.ip + 1)
    | (.ok none, after) =>
      placed.cursor.ip = past.circuit.stepCount ∧ after = bench.withCursor name placed
    | (.error _, _) => False
  /-- Draining it shows the steps from there on and leads past the last one. -/
  drain : match (Workbench.drain name).outcome bench with
    | (.ok views, after) =>
      ShowsFrom past placed.cursor.ip views ∧
        MovedTo bench after name placed past.circuit.stepCount
    | (.error _, _) => False

/-- How a cursor without a circuit is, and how reading and advancing it end. -/
structure Strays (bench : Workbench) (name : String) (placed : PlacedCursor) : Prop where
  /-- It is as it was made. -/
  cursor_eq : placed.cursor = .unattached
  /-- It cannot be read. -/
  deref : ∃ fault, (Workbench.deref name).outcome bench = (.error fault, bench) ∧
    InvalidCursor fault
  /-- It cannot be advanced. -/
  advance : ∃ fault, (Workbench.advance name).outcome bench = (.error fault, bench) ∧
    InvalidCursor fault

section Cursors

variable {past : Past} {name : String} {placed : PlacedCursor}

theorem shows_view (hmade : past.made.Ordered) (hempty : past.made.log = []) {ip : Nat}
    (hip : ip < past.circuit.log.length) :
    Shows past ip (past.circuit.log[ip].view past.circuit.serial ip) :=
  ⟨rfl, rfl, ((ordered_attemptAll hmade past.calls).kindAt ip hip).symm,
    Circuit.recordOf_log hmade hempty past.calls ip hip⟩

theorem showsFrom_drop (past : Past) (hmade : past.made.Ordered) (hempty : past.made.log = []) {ip : Nat}
    (hip : ip ≤ past.circuit.stepCount) :
    ShowsFrom past ip
      ((past.circuit.log.drop ip).mapIdx fun i step => step.view past.circuit.serial (ip + i)) := by
  have hlength : past.circuit.log.length = past.circuit.stepCount :=
    (ordered_attemptAll hmade past.calls).length_log
  refine ⟨?_, fun i view hview => ?_⟩
  · rw [List.length_mapIdx, List.length_drop, hlength]
    omega
  · rw [List.getElem?_mapIdx, Option.map_eq_some_iff] at hview
    obtain ⟨step, hstep, rfl⟩ := hview
    rw [List.getElem?_drop] at hstep
    obtain ⟨hi, rfl⟩ := List.getElem?_eq_some_iff.mp hstep
    exact shows_view hmade hempty hi

/-- A cursor at a place of a circuit follows it. -/
theorem Orderly.follows (h : bench.Orderly) (past : Past) (hmade : past.made.Ordered)
    (hempty : past.made.log = []) {serial : Nat}
    (hserial : bench.circuits[serial]? = some past.circuit)
    (hname : bench.cursors.lookup name = some placed) (hcircuit : placed.circuit = some serial) :
    Follows bench past name placed := by
  have hordered : past.circuit.Ordered := ordered_attemptAll hmade past.calls
  have hc := circuitOf?_of_getElem? hcircuit hserial
  have hstands : placed.cursor.Placed past.circuit := h.stands_of_lookup hname hc
  have hkind : (placed.cursor.refresh (some past.circuit)).kind =
      past.circuit.kindAt placed.cursor.ip := by
    rw [hstands.refresh_eq hordered]
    rfl
  have hderef : (Workbench.deref name).outcome bench = _ := outcome_moveCursor _ hname hc
  have hadvance : (Workbench.advance name).outcome bench = _ := outcome_moveCursor _ hname hc
  have hnext : (Workbench.next name).outcome bench = _ := outcome_moveCursor _ hname hc
  have hdrain : (Workbench.drain name).outcome bench = _ := outcome_moveCursor _ hname hc
  obtain ⟨hviews, -, hend⟩ := hstands.drain hordered
  have hdrain' : match (Workbench.drain name).outcome bench with
      | (.ok views, after) =>
        ShowsFrom past placed.cursor.ip views ∧
          MovedTo bench after name placed past.circuit.stepCount
      | (.error _, _) => False := by
    have hshows := showsFrom_drop past hmade hempty hstands.ip_le
    rw [← hviews] at hshows
    rw [hdrain]
    exact ⟨hshows, _, hend, rfl⟩
  rcases Nat.lt_or_ge placed.cursor.ip past.circuit.stepCount with hip | hip
  · have hlog : placed.cursor.ip < past.circuit.log.length := by rwa [hordered.length_log]
    have hshows := shows_view hmade hempty hlog
    refine ⟨hstands, hkind, ?_, ?_, ?_, hdrain'⟩
    · rw [hderef, hstands.deref hordered hlog]
      exact ⟨hip, hshows, Cursor.onStep _ _, rfl, rfl⟩
    · rw [hadvance, hstands.advance hordered hlog]
      exact ⟨hip, _, rfl, rfl⟩
    · rw [hnext, Option.bind_some, hstands.next? hordered hlog]
      exact ⟨hip, hshows, _, rfl, rfl⟩
  · have hpast : placed.cursor.ip = past.circuit.stepCount := Nat.le_antisymm hstands.ip_le hip
    refine ⟨hstands, hkind, ?_, ?_, ?_, hdrain'⟩
    · rw [hderef, Cursor.deref_atEnd hip]
      exact ⟨hpast, ⟨_, rfl, rfl⟩, rfl⟩
    · obtain ⟨failure, hfailure, hfamily⟩ := Cursor.advance_atEnd hip
      rw [hadvance, hfailure]
      exact ⟨hpast, ⟨_, rfl, hfamily⟩, rfl⟩
    · rw [hnext, Option.bind_some, Cursor.next?_atEnd hip]
      exact ⟨hpast, rfl⟩

/-- A cursor without a circuit strays. -/
theorem Orderly.strays (h : bench.Orderly) (hname : bench.cursors.lookup name = some placed)
    (hcircuit : placed.circuit = none) : Strays bench name placed := by
  have hc : bench.circuitOf? placed = some none := by simp [circuitOf?, hcircuit]
  exact ⟨h.stands_of_lookup hname hc, ⟨_, outcome_moveCursor _ hname hc, _, rfl, rfl⟩,
    ⟨_, outcome_moveCursor _ hname hc, _, rfl, rfl⟩⟩

/-- Two cursors over one circuit are the same just if they have passed the same number of steps. -/
theorem Orderly.sameCursor_iff (h : bench.Orderly) {a b : String} {first second : PlacedCursor}
    {serial : Nat} {c : Circuit Float} (hserial : bench.circuits[serial]? = some c)
    (ha : bench.cursors.lookup a = some first) (hfirst : first.circuit = some serial)
    (hb : bench.cursors.lookup b = some second) (hsecond : second.circuit = some serial) :
    ∃ same, ((sameCursor a b).outcome bench).1 = .ok same ∧
      (same = true ↔ first.cursor.ip = second.cursor.ip) := by
  have hordered := h.ordered_of_getElem? hserial
  have hcfirst := circuitOf?_of_getElem? hfirst hserial
  have hcsecond := circuitOf?_of_getElem? hsecond hserial
  have hstands : first.cursor.Placed c := h.stands_of_lookup ha hcfirst
  have hstands' : second.cursor.Placed c := h.stands_of_lookup hb hcsecond
  have hcursor := outcome_cursor bench b
  rw [hb] at hcursor
  have hlearn : (learn a).outcome bench = _ := outcome_moveCursor _ ha hcfirst
  -- where both names are one, the second look finds what the first one left
  have hleft : ∃ placed, ((withNamed bench.cursors a
        { first with cursor := first.cursor.refresh (some c) }).lookup b = some placed) ∧
      placed.circuit = some serial ∧ placed.cursor.Placed c ∧
      placed.cursor.ip = second.cursor.ip := by
    by_cases hab : b = a
    · subst hab
      obtain rfl := Option.some_inj.mp (ha.symm.trans hb)
      refine ⟨_, lookup_withNamed _ _ _, hfirst, hstands.refresh hordered, ?_⟩
      show (first.cursor.refresh (some c)).ip = _
      rw [hstands.refresh_eq hordered]
      rfl
    · rw [lookup_withNamed_of_ne _ _ hab]
      exact ⟨second, hb, hsecond, hstands', rfl⟩
  obtain ⟨placed, hlookup, hcircuit, hstands'', hip⟩ := hleft
  have hcplaced : (bench.withCursor a
      { first with cursor := first.cursor.refresh (some c) }).circuitOf? placed =
        some (some c) := circuitOf?_of_getElem? hcircuit hserial
  have hlearn' : (learn b).outcome _ = _ := outcome_moveCursor _ hlookup hcplaced
  refine ⟨first.cursor.sameAs (some c) (some c) placed.cursor, ?_, ?_⟩
  · unfold sameCursor
    rw [outcome_bind_ok hcursor, outcome_bind_ok hlearn, outcome_bind_ok hlearn']
    rfl
  · rw [hstands.sameAs_iff hstands'' hordered, hip]

/-- Whatever is done with circuits and with cursors over them, in whatever order, and whether it
succeeds or fails: every circuit is the one that was made after the calls to it, and every cursor over
it follows it. Two such cursors are the same just if they have passed the same number of steps. The
views of a circuit are those of its steps in order, and as many steps forward as there are lead from
its start to its end. A cursor without a circuit can be neither moved nor read. -/
theorem cursors_follow [Capacity] (draws : Draws Float) (checking : Bool) (acts : List Act) :
    let bench := (start draws checking).afterAll acts
    (∀ serial c, bench.circuits[serial]? = some c →
      ∃ plan made, CircuitPlan.Makes plan serial made ∧
        let past : Past := ⟨made, asked serial (start draws checking) acts⟩
        c = past.circuit ∧
          (∀ name placed, bench.cursors.lookup name = some placed →
            placed.circuit = some serial → Follows bench past name placed) ∧
          (∀ a b first second, bench.cursors.lookup a = some first →
            bench.cursors.lookup b = some second → first.circuit = some serial →
            second.circuit = some serial →
            ∃ same, ((sameCursor a b).outcome bench).1 = .ok same ∧
              (same = true ↔ first.cursor.ip = second.cursor.ip)) ∧
          ShowsFrom past 0 c.views ∧
          (Cursor.start c).advanceBy c c.stepCount = .ok (Cursor.finish c)) ∧
    ∀ name placed, bench.cursors.lookup name = some placed →
      (∀ serial, placed.circuit = some serial → ∃ c, bench.circuits[serial]? = some c) ∧
        (placed.circuit = none → Strays bench name placed) := by
  intro bench
  obtain ⟨horderly, hgrown⟩ := (orderly_start draws checking).acts acts
  refine ⟨fun serial c hserial => ?_, fun name placed hname => ⟨fun serial hcircuit => ?_, ?_⟩⟩
  · obtain ⟨plan, made, hmade, rfl⟩ := hgrown.fresh serial c rfl hserial
    obtain ⟨-, hstart, hempty⟩ := hmade.start
    have hordered := ordered_attemptAll hstart (asked serial (start draws checking) acts)
    refine ⟨plan, made, hmade, rfl, ?_, ?_, ?_, Cursor.advanceBy_start hordered⟩
    · exact fun name placed hname hcircuit =>
        horderly.follows ⟨made, _⟩ hstart hempty hserial hname hcircuit
    · exact fun a b first second ha hb hfirst hsecond =>
        horderly.sameCursor_iff hserial ha hfirst hb hsecond
    · have hshows := showsFrom_drop ⟨made, asked serial (start draws checking) acts⟩
        hstart hempty (Nat.zero_le _)
      simp only [List.drop_zero, Nat.zero_add] at hshows
      rw [Circuit.views_eq hordered]
      exact hshows
  · obtain ⟨c, hc, -⟩ := horderly.sits _ (mem_of_lookup hname)
    rw [circuitOf?, hcircuit] at hc
    obtain ⟨c, hserial, -⟩ := Option.map_eq_some_iff.mp hc
    exact ⟨c, hserial⟩
  · exact fun hcircuit => horderly.strays hname hcircuit

section

attribute [local instance] Capacity.common

/-- A cursor that was put on a circuit without steps, and could not be advanced there, shows the first
step once there is one. Its copy stays behind. -/
example :
    let plan : CircuitPlan := ⟨.int 2, .int 1, .int 2, "", fun _ => .ok fun _ => "", fun _ => 0⟩
    let measure : Call Float := .measureZ (.int 1) (.int 0) ""
    let bench := (start ⟨0, [], 0⟩ false).afterAll
      [.create "c" plan, .put "i" "c" .start, .advance "i", .append "c" measure, .copy "i" "j",
        .next "i"]
    (bench.cursors.lookup "i").map PlacedCursor.cursor = some ⟨.none, 1, 0, 1⟩ ∧
      (bench.cursors.lookup "j").map PlacedCursor.cursor = some ⟨.none, 0, 0, 0⟩ :=
  ⟨by decide +kernel, by decide +kernel⟩

end

end Cursors

end Workbench

end QuditSim
