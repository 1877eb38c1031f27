import QuditSim.Failure
import QuditSim.Json.Basic

/-!
# Index arguments

An argument that names qudits or dits is one index or a list of indices, and it can be neither.
`IndexArg.indices` reads an argument of either form, `IndexArg.listed` one that has to be a
list; both refuse items that are no integers. Values of foreign types can raise any error when they
are asked for their items or for the integer that they are.
-/

namespace QuditSim

/-- An item that should be an index. -/
inductive IndexItem where
  /-- An integer. -/
  | int (value : Int)
  /-- Another value, by the name of its kind. -/
  | foreign (kind : String)
  /-- A value that raises an error of its own. -/
  | raising (error : ReadingError)
deriving DecidableEq, Repr

/-- An argument that should name indices. -/
inductive IndexArg where
  /-- One integer, by itself and with the name of its kind. -/
  | one (value : Int) (kind : String)
  /-- A list of items. -/
  | many (items : List IndexItem)
  /-- A value that is neither, by the name of its kind. -/
  | foreign (kind : String)
  /-- A value that raises an error of its own. -/
  | raising (error : ReadingError)
deriving DecidableEq, Repr

/-- The index that an item is. -/
def IndexItem.index : IndexItem → Except IndexFault Int
  | int value => .ok value
  | foreign kind => .error (.notInteger kind)
  | raising error => .error (.raised error)

/-- The indices that items are. -/
def indicesOf : List IndexItem → Except IndexFault (List Int)
  | [] => .ok []
  | item :: rest => do return (← item.index) :: (← indicesOf rest)

@[simp] theorem indicesOf_nil : indicesOf [] = .ok [] := rfl

/-- Items that are integers are their indices. -/
@[simp] theorem indicesOf_map_int (indices : List Int) :
    indicesOf (indices.map .int) = .ok indices := by
  induction indices with
  | nil => rfl
  | cons i rest ih => simp [indicesOf, IndexItem.index, ih, bind, Except.bind, pure, Except.pure]

namespace IndexArg

/-- Whether the argument is one index or should be a list. -/
def extent : IndexArg → Extent
  | one .. => .single
  | _ => .multiple

/-- The indices of an argument of either form. -/
def indices : IndexArg → Except IndexFault (List Int)
  | one value _ => .ok [value]
  | many items => indicesOf items
  | foreign kind => .error (.notList kind)
  | raising error => .error (.raised error)

/-- The indices of an argument that has to be a list. -/
def listed : IndexArg → Except IndexFault (List Int)
  | one _ kind => .error (.notList kind)
  | many items => indicesOf items
  | foreign kind => .error (.notList kind)
  | raising error => .error (.raised error)

/-- One index. -/
def ofInt (value : Int) : IndexArg := one value "int"

/-- A list of indices. -/
def ofList (values : List Int) : IndexArg := many (values.map .int)

end IndexArg

/-- The item that a value is. -/
def IndexItem.ofJson (json : Json) : IndexItem :=
  match json.integral? with
  | some value => int value
  | none => foreign json.kindName

/-- The argument that a value is: a text counts as the list of its characters, and an object as
the list of its names. -/
def IndexArg.ofJson : Json → IndexArg
  | .array items => many (items.map IndexItem.ofJson)
  | .string text => many ((Text.items text.toList).map fun _ => .foreign "str")
  | .object members => many (members.map fun _ => .foreign "str")
  | json =>
    match json.integral? with
    | some value => one value json.kindName
    | none => foreign json.kindName

end QuditSim
