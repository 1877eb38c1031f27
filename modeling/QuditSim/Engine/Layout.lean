import QuditSim.Extent
import QuditSim.Failure

/-!
# Layout of a register

A measured qudit leaves the state, and the qudits above it move down by one position. A
`Layout` tells for each qudit of a circuit at which position of the state it is now, or that it
was measured: `Layout.position?` and `Layout.resolve` look positions up, and `Layout.retire`
marks a qudit as measured.
-/

namespace QuditSim

/-- Where the qudits of a circuit are in the state. -/
structure Layout where
  /-- The position of each qudit, and none for a measured one. -/
  positions : List (Option Nat)
deriving DecidableEq, Repr

/-- Why there is no such layout. -/
inductive RegisterFault where
  /-- There are no qudits. -/
  | noQudits (given : Argument)
  /-- The number of qudits is no integer. -/
  | wrongKind
  /-- The list of qudits cannot be made. -/
  | extent (fault : ExtentFault)

/-- The text of a fault, for those that have one. -/
def RegisterFault.message? : RegisterFault → Option String
  | noQudits given => some ("n_qudits must be >= 1, got " ++ given.text)
  | wrongKind | extent _ => none

/-- Why a layout has no answer. -/
inductive LayoutFault where
  /-- A failure with its place. -/
  | located (failure : Failure)
  /-- An index that is no integer. -/
  | wrongKind

namespace Layout

/-- The layout of `n` qudits of which none was measured. -/
def start (n : Nat) : Layout := ⟨(List.range n).map some⟩

/-- The layout of a register, refused for one without qudits. -/
def create? [Capacity] (n : Argument) : Except RegisterFault Layout :=
  match n.number? with
  | none => .error .wrongKind
  | some count =>
    if count.below 1 then .error (.noQudits n)
    else
      match n.index? with
      | none => .error .wrongKind
      | some count => do
        (checkListExtent Capacity.numbers count.toNat).mapError .extent
        return start count.toNat

/-- The number of qudits, measured ones included. -/
def size (layout : Layout) : Nat := layout.positions.length

/-- The entry of a qudit, which an operation looks up. -/
def entry (layout : Layout) (operation : String) (i : Argument) :
    Except LayoutFault (Option Nat) :=
  match i.number? with
  | none => .error .wrongKind
  | some x =>
    if x.below 0 || x.atLeast layout.size then
      .error (.located (.inOperation operation (.quditRange none i layout.size)))
    else
      match i.index? with
      | none => .error .wrongKind
      | some index => .ok (layout.positions.getD index.toNat none)

/-- The position of a qudit, and none for a measured one. -/
def position? (layout : Layout) (i : Argument) : Except LayoutFault (Option Nat) :=
  layout.entry "position" i

/-- Whether a qudit was measured. -/
def isMeasured (layout : Layout) (i : Argument) : Except LayoutFault Bool :=
  (layout.entry "is_measured" i).map Option.isNone

/-- The position of a live qudit. The step is named when the qudit was measured. -/
def resolveOne (layout : Layout) (step : Option Json) (i : Argument) : Except LayoutFault Nat :=
  match layout.entry "resolve" i with
  | .error fault => .error fault
  | .ok (some position) => .ok position
  | .ok none => .error (.located ⟨.measured i, some (.string "resolve"), step⟩)

/-- The positions of live qudits, in the given order. The first one that has none decides how
the operation fails. -/
def resolve (layout : Layout) (indices : List Argument) (step : Option Json) :
    Except LayoutFault (List Nat) :=
  indices.mapM (layout.resolveOne step)

/-- The layout after the qudit at an index left the state. -/
def drop (layout : Layout) (i : Nat) : Layout :=
  -- positions ascend with the qudits, so those behind the one that left move down
  ⟨layout.positions.mapIdx fun j position =>
    if j = i then none else if i < j then position.map (· - 1) else position⟩

/-- The layout after a live qudit was measured. -/
def retire (layout : Layout) (i : Argument) (step : Option Json) : Except LayoutFault Layout :=
  match layout.entry "retire" i with
  | .error fault => .error fault
  | .ok (some _) => .ok (layout.drop ((i.index?.getD 0).toNat))
  | .ok none => .error (.located ⟨.measured i, some (.string "retire"), step⟩)

/-- The layout after several qudits were measured, with the fault of the first one that is
not live. Qudits before that one have left. -/
def retireAll (layout : Layout) (step : Option Json) : List Argument → Layout × Option LayoutFault
  | [] => (layout, none)
  | i :: rest =>
    match layout.retire i step with
    | .ok layout => layout.retireAll step rest
    | .error fault => (layout, some fault)

/-- The layout with every qudit live again. -/
def reset (layout : Layout) : Layout := start layout.size

/-- The measured qudits in ascending order. -/
def measured (layout : Layout) : List Nat :=
  (List.range layout.size).filter fun i => (layout.positions.getD i none).isNone

/-- The live qudits in ascending order. -/
def live (layout : Layout) : List Nat :=
  (List.range layout.size).filter fun i => (layout.positions.getD i none).isSome

/-- The positions of the live qudits in ascending order. -/
def livePositions (layout : Layout) : List Nat := (layout.positions.filterMap id).mergeSort

/-- The entry of an integer is that of the qudit, or a range fault. -/
theorem entry_int (layout : Layout) (operation : String) (i : Int) :
    layout.entry operation i =
      if i < 0 ∨ (layout.size : Int) ≤ i then
        .error (.located (.inOperation operation (.quditRange none i layout.size)))
      else .ok (layout.positions.getD i.toNat none) := by
  simp [entry]

@[simp] theorem size_start (n : Nat) : (start n).size = n := by simp [start, size]

@[simp] theorem size_drop (layout : Layout) (i : Nat) : (layout.drop i).size = layout.size := by
  simp [drop, size]

@[simp] theorem size_reset (layout : Layout) : layout.reset.size = layout.size := by simp [reset]

/-- The entries of a layout after a qudit left. -/
theorem getElem?_drop (layout : Layout) (i j : Nat) :
    (layout.drop i).positions[j]? = layout.positions[j]?.map fun position =>
      if j = i then none else if i < j then position.map (· - 1) else position := by
  simp [drop]

end Layout

end QuditSim
