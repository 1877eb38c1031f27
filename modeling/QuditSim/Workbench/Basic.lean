import QuditSim.Engine.Typed
import QuditSim.Report.Document

/-!
# A workbench of named objects

On a workbench lie circuits, cursors and engines, each under a name. A circuit that is appended
to stays the circuit that cursors and engines are attached to, and one that loses its name stays
there for them. All engines of a workbench draw from the same chance, and what its operations
have to tell is collected.

- `Workbench.Circuits` makes circuits, appends to them, and takes them through reports.
- `Workbench.Cursors` moves cursors and reads under them.
- `Workbench.Engines` makes engines and runs them.
-/

namespace QuditSim

/-- A cursor with the number of the circuit that it is attached to, if it is attached. -/
structure PlacedCursor where
  /-- The number of the circuit. -/
  circuit : Option Nat
  /-- The cursor. -/
  cursor : Cursor

/-- What lies on a workbench. -/
structure Workbench where
  /-- All circuits; the number of a circuit is its place. -/
  circuits : List (Circuit Float)
  /-- The numbers of circuits by name. -/
  names : List (String × Nat)
  /-- The cursors by name. -/
  cursors : List (String × PlacedCursor)
  /-- The engines by name. -/
  engines : List (String × TypedEngine)
  /-- What is left of chance. -/
  draws : Draws Float
  /-- Whether operations on states check norms. -/
  checking : Bool
  /-- What there is to tell. -/
  events : List Event

/-- What an operation on a workbench can fail with. -/
inductive WorkbenchFault where
  /-- Nothing has the name. -/
  | noSuchName
  /-- An operation on a circuit. -/
  | circuit (fault : CircuitFault)
  /-- An operation on a cursor. -/
  | cursor (failure : Failure)
  /-- An operation on an engine. -/
  | engine (fault : EngineFault)
  /-- A text that has no form in bytes, and so cannot be put into a file. -/
  | unwritable
  /-- Making a circuit from a report. -/
  | rebuild (fault : RebuildFault)
  /-- Making a circuit from the text of a file. -/
  | load (fault : LoadFault)

/-- Computations that change a workbench and can fail. What was changed before a failure stays
changed. -/
abbrev Bench (α : Type) : Type := ExceptT WorkbenchFault (StateM Workbench) α

/-- A list of named values in which a name has the given value. -/
def withNamed {α : Type} (entries : List (String × α)) (name : String) (value : α) :
    List (String × α) :=
  (name, value) :: entries.filter fun entry => entry.1 ≠ name

/-- A name is found with the value that it was given last. -/
theorem lookup_withNamed {α : Type} (entries : List (String × α)) (name : String) (value : α) :
    (withNamed entries name value).lookup name = some value := by
  simp [withNamed]

/-- Any other name is found with the value that it had. -/
theorem lookup_withNamed_of_ne {α : Type} (entries : List (String × α)) {name other : String}
    (value : α) (h : other ≠ name) :
    (withNamed entries name value).lookup other = entries.lookup other := by
  have hhead : (withNamed entries name value).lookup other =
      (entries.filter fun entry => entry.1 ≠ name).lookup other := by
    simp [withNamed, List.lookup_cons, beq_eq_false_iff_ne.mpr h]
  rw [hhead]
  clear hhead
  induction entries with
  | nil => rfl
  | cons entry entries ih =>
    by_cases hentry : entry.1 = name
    · -- the entry that goes has another name
      rw [List.filter_cons_of_neg (by simpa using hentry), ih, List.lookup_cons,
        beq_eq_false_iff_ne.mpr (fun heq => h (heq.trans hentry))]
    · rw [List.filter_cons_of_pos (by simpa using hentry), List.lookup_cons, List.lookup_cons, ih]

namespace Workbench

/-- An empty workbench. -/
def start (draws : Draws Float) (checking : Bool) : Workbench :=
  ⟨[], [], [], [], draws, checking, []⟩

/-- The value that was found under a name. -/
def found {α : Type} : Option α → Bench α
  | some value => return value
  | none => throw .noSuchName

/-- A computation that does not touch the workbench. -/
def lift {ε α : Type} (fault : ε → WorkbenchFault) : Except ε α → Bench α
  | .ok value => return value
  | .error e => throw (fault e)

/-- Tells events. -/
def tell (events : List Event) : Bench Unit :=
  modify fun bench => { bench with events := bench.events ++ events }

/-- Turns checks of norms on or off. -/
def setChecking (on : Bool) : Bench Unit := modify fun bench => { bench with checking := on }

/-- The circuit with a number. -/
def circuitAt (serial : Nat) : Bench (Circuit Float) := do found (← get).circuits[serial]?

/-- The number of the circuit with a name. -/
def serialOf (name : String) : Bench Nat := do found ((← get).names.lookup name)

/-- The circuit with a name. -/
def circuit (name : String) : Bench (Circuit Float) := do circuitAt (← serialOf name)

/-- The cursor with a name. -/
def cursor (name : String) : Bench PlacedCursor := do found ((← get).cursors.lookup name)

/-- The engine with a name. -/
def engine (name : String) : Bench TypedEngine := do found ((← get).engines.lookup name)

/-- The circuit that a cursor is attached to. -/
def attached (placed : PlacedCursor) : Bench (Option (Circuit Float)) :=
  match placed.circuit with
  | some serial => some <$> circuitAt serial
  | none => return none

/-- The number of the circuit that is put on the workbench next. -/
def nextSerial : Bench Nat := return (← get).circuits.length

/-- Puts a new circuit on the workbench. -/
def putCircuit (name : String) (c : Circuit Float) : Bench Unit :=
  modify fun bench =>
    { bench with
      circuits := bench.circuits ++ [c], names := withNamed bench.names name c.serial }

/-- Replaces a circuit by what it became. -/
def replaceCircuit (c : Circuit Float) : Bench Unit :=
  modify fun bench => { bench with circuits := bench.circuits.set c.serial c }

/-- Puts a cursor on the workbench. -/
def putCursor (name : String) (placed : PlacedCursor) : Bench Unit :=
  modify fun bench => { bench with cursors := withNamed bench.cursors name placed }

/-- Puts an engine on the workbench. -/
def putEngine (name : String) (engine : TypedEngine) : Bench Unit :=
  modify fun bench => { bench with engines := withNamed bench.engines name engine }

end Workbench

end QuditSim
