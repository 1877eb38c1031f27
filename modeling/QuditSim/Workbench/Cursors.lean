import QuditSim.Workbench.Basic

/-!
# Cursors on a workbench

A cursor is put at the start or at the end of a circuit, or attached to none. It is advanced,
read and copied, and two cursors are compared by their places. Reading a cursor or comparing it
makes it learn the sort of a step that was appended at its place.
-/

namespace QuditSim.Workbench

/-- Where a cursor is put. -/
inductive CursorPlace where
  /-- On the first step of a circuit. -/
  | start
  /-- Past the last step of a circuit. -/
  | finish
  /-- On no circuit. -/
  | nowhere
deriving DecidableEq, Repr

/-- Puts a new cursor on the circuit with a name. -/
def createCursor (name circuitName : String) (place : CursorPlace) : Bench Unit := do
  match place with
  | .nowhere => putCursor name ⟨none, .unattached⟩
  | .start => do
    let c ← circuit circuitName
    putCursor name ⟨some c.serial, .start c⟩
  | .finish => do
    let c ← circuit circuitName
    putCursor name ⟨some c.serial, .finish c⟩

/-- Changes the cursor with a name, given the circuit that it is attached to. -/
def moveCursor {α : Type} (name : String)
    (f : Option (Circuit Float) → Cursor → Except Failure (α × Cursor)) : Bench α := do
  let placed ← cursor name
  let (value, cursor) ← lift .cursor (f (← attached placed) placed.cursor)
  putCursor name { placed with cursor := cursor }
  return value

/-- Advances a cursor. -/
def advance (name : String) : Bench Unit :=
  moveCursor name fun c cursor => (cursor.advance c).map ((), ·)

/-- The step that a cursor stands on. -/
def deref (name : String) : Bench StepView := moveCursor name fun c cursor => cursor.deref c

/-- The step that a cursor stands on, unless it is past the last one; then the cursor moves on. -/
def next (name : String) : Bench (Option StepView) :=
  moveCursor name fun c cursor =>
    match c.bind cursor.next? with
    | some (view, cursor) => .ok (some view, cursor)
    | none => .ok (none, cursor)

/-- All steps from that of a cursor on; the cursor is past the last one then. -/
def drain (name : String) : Bench (List StepView) :=
  moveCursor name fun c cursor =>
    match c with
    | some c => .ok (cursor.drain c)
    | none => .ok ([], cursor)

/-- Gives a copy of a cursor a name. -/
def copyCursor (name copyName : String) : Bench Unit := do putCursor copyName (← cursor name)

/-- Makes a cursor learn the sort of its step. The answer is the cursor as it was before, with
the circuit that it is attached to. -/
def learn (name : String) : Bench (Option (Circuit Float) × Cursor) :=
  moveCursor name fun c cursor => .ok ((c, cursor), cursor.refresh c)

/-- Whether two cursors stand at the same place. -/
def sameCursor (a b : String) : Bench Bool := do
  let _ ← cursor b
  let (ca, first) ← learn a
  let (cb, second) ← learn b
  return first.sameAs ca cb second

end QuditSim.Workbench
