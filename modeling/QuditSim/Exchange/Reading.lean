import QuditSim.Device
import QuditSim.Engine.Layout
import QuditSim.Extent
import QuditSim.Json.Basic
import QuditSim.Noise.Channel
import QuditSim.State.Fault
import QuditSim.State.Sampling

/-!
# Reading values

Values of the library are described in the exchange format by objects with named members.
This module holds what the readers of such descriptions share: how they fail (`ReadingFault`),
and how a member is looked up and taken as a number, a text or a list.

A number that the format cannot write, such as an infinity, is described by a text
(`Json.special?`).
-/

namespace QuditSim

/-- Why a description could not be read. -/
inductive ReadingFault where
  /-- A member is missing. -/
  | missing (name : String)
  /-- A value is of a kind that is not accepted in its place. -/
  | wrongKind
  /-- There is no item at an index. -/
  | noItem
  /-- A vector of fewer than no entries. -/
  | negativeExtent
  /-- There is no kind of step with the given name. -/
  | unknownKind
  /-- A value is no operator, by the name of its kind. -/
  | notOperator (kind : String)
  /-- Lists that are no tensor. -/
  | entry (fault : EntryFault)
  /-- A tolerance that cannot be compared with. -/
  | tolerance (fault : ToleranceFault)
  /-- A register that cannot be laid out. -/
  | register (fault : RegisterFault)
  /-- An operation on a layout. -/
  | layout (fault : LayoutFault)
  /-- A name that is blank. -/
  | blankName
  /-- A multiple that is not formed. -/
  | scale (fault : TypedTensor.ScaleFault)
  /-- A gate for qudits of a dimension that there is not. -/
  | dimension (fault : DimensionFault)
  /-- A matrix that is too large to be made. -/
  | extent (fault : ExtentFault)
  /-- An operation on states, or a state that cannot be made. -/
  | state (fault : StateFault)
  /-- A device that cannot be made. -/
  | device (fault : DeviceFault)
  /-- A channel that cannot be made. -/
  | channel (fault : ChannelFault)

/-- The result of reading a description. -/
abbrev Reading (α : Type) : Type := Except ReadingFault α

namespace Json

/-- The number that a text in place of a number stands for. -/
def special? : String → Option Number
  | "nan" => some (.float (0.0 / 0.0))
  | "inf" => some (.float (1.0 / 0.0))
  | "-inf" => some (.float (-1.0 / 0.0))
  | "-0" => some (.float (-0.0))
  | _ => none

mutual

/-- A nested list in which texts in place of numbers are numbers. -/
def withSpecials : Json → Json
  | string text =>
    match special? text with
    | some value => number value
    | none => string text
  | array items => array (itemsWithSpecials items)
  | value => value

/-- Items in which texts in place of numbers are numbers. -/
def itemsWithSpecials : List Json → List Json
  | [] => []
  | item :: rest => item.withSpecials :: itemsWithSpecials rest

end

/-- The argument that a value describes in place of a number. -/
def numeric (json : Json) : Argument := json.withSpecials.argument

/-- The number that a value describes. -/
def described? (json : Json) : Option Number := json.numeric.number?

/-- The number that an argument is, with its text. -/
def writtenOf (given : Argument) : Option (Written Number) :=
  given.number?.map fun number => ⟨number, given.text⟩

/-- The number that a value describes, as messages show it. -/
def written? (json : Json) : Option (Written Number) := writtenOf json.numeric

/-- The double that a value describes, as messages show it. -/
def writtenFloat? (json : Json) : Option (Written Float) :=
  json.written?.map fun number => ⟨number.value.toFloat, number.text⟩

/-- A member that has to be there. -/
def member (json : Json) (name : String) : Reading Json :=
  match json.get? name with
  | some value => .ok value
  | none => .error (.missing name)

/-- A member that is there and not null. -/
def given? (json : Json) (name : String) : Option Json :=
  match json.get? name with
  | some null | none => none
  | value => value

/-- The text of a member that is a text. -/
def text? (json : Json) (name : String) : Option String :=
  match json.get? name with
  | some (string text) => some text
  | _ => none

/-- The text of a member, and the empty text if there is none. -/
def textMember (json : Json) (name : String) : String := (json.text? name).getD ""

/-- The integer of a member that is one. -/
def int? (json : Json) (name : String) : Option Int := (json.get? name).bind integral?

/-- The argument that a member is, and a standard one if it is not there. -/
def argumentOr (json : Json) (name : String) (standard : Argument) : Argument :=
  ((json.get? name).map argument).getD standard

/-- The argument that a member is. It has to be there. -/
def argumentMember (json : Json) (name : String) : Reading Argument :=
  (json.member name).map argument

/-- The integer of a member that has to be one. -/
def intMember (json : Json) (name : String) : Reading Int := do
  match (← json.member name).integral? with
  | some n => return n
  | none => throw .wrongKind

/-- Whether a member is true. -/
def flag (json : Json) (name : String) : Bool :=
  match json.get? name with
  | some (bool value) => value
  | _ => false

/-- The items of a member that is a list. -/
def items (json : Json) (name : String) : List Json :=
  match json.get? name with
  | some (array items) => items
  | _ => []

/-- The integers of a member that is a list. -/
def ints (json : Json) (name : String) : List Int := (json.items name).filterMap integral?

/-- The members of a member that is an object. -/
def membersOf (json : Json) (name : String) : List (String × Json) :=
  match json.get? name with
  | some (object members) => members
  | _ => []

/-- The numbers that chance is made of. -/
def draws (json : Json) : Draws Float :=
  .ofList ((json.items "draws").filterMap fun u => u.described?.map Number.toFloat)

/-- The element type of a name. -/
def elementTypeNamed (name : String) : Reading ElementType :=
  match ElementType.ofName? name with
  | some type => .ok type
  | none => .error (.missing name)

/-- The element type that a description asks for, and a standard one if it asks for none. -/
def elementType (json : Json) (standard : ElementType) : Reading ElementType :=
  match json.given? "dtype" with
  | some (string name) => elementTypeNamed name
  | _ => .ok standard

end Json

end QuditSim
