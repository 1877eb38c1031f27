import QuditSim.Argument
import QuditSim.Text.Quoted

/-!
# JSON values

A value of the data format in which circuits are exchanged. Members of an object keep the
order in which they were written, and numbers keep whether they were written as integers.

- `Json.get?` finds the member of an object.
- `Json.shown` is the text of a value in a message, with texts in quotes.
- `Json.kindName` names the kind of a value.
- `Json.argument` takes a value as an argument where a number is expected, and
  `Json.argumentList` where a list is.
-/

namespace QuditSim

/-- A value of the exchange format. -/
inductive Json where
  /-- The absent value. -/
  | null
  /-- A truth value. -/
  | bool (value : Bool)
  /-- A number. -/
  | number (value : Number)
  /-- A text. -/
  | string (value : String)
  /-- A list of values. -/
  | array (items : List Json)
  /-- Named values, in the order of their first appearance and each name once. -/
  | object (members : List (String × Json))
deriving Inhabited

namespace Json

/-- An integer value. -/
def int (value : Int) : Json := .number (.int value)

/-- A natural number value. -/
def nat (value : Nat) : Json := .number (.int value)

/-- A double value. -/
def float (value : Float) : Json := .number (.float value)

/-- A list of integers as a value. -/
def integers (xs : List Int) : Json := array (xs.map int)

/-- A list of natural numbers as a value. -/
def naturals (xs : List Nat) : Json := array (xs.map nat)

/-- The member of the given name. -/
def get? (json : Json) (name : String) : Option Json :=
  match json with
  | object members => members.lookup name
  | _ => none

/-- Puts a member: the value of a name that is already there is replaced in its place. -/
def put (members : List (String × Json)) (name : String) (value : Json) : List (String × Json) :=
  match members with
  | [] => [(name, value)]
  | (other, old) :: rest =>
    if other == name then (other, value) :: rest else (other, old) :: put rest name value

/-- The name of the kind of a value, as messages give it. -/
def kindName : Json → String
  | null => "NoneType"
  | bool _ => "bool"
  | number (.int _) => "int"
  | number (.float _) => "float"
  | string _ => "str"
  | array _ => "list"
  | object _ => "dict"

mutual

/-- The text of a value in a message. -/
def shown : Json → String
  | null => "None"
  | bool value => Text.truth value
  | number value => value.text
  | string value => Text.quoted value
  | array items => "[" ++ ", ".intercalate (shownItems items) ++ "]"
  | object members => "\x7b" ++ ", ".intercalate (shownMembers members) ++ "\x7d"

/-- The texts of the items of a list. -/
def shownItems : List Json → List String
  | [] => []
  | item :: rest => item.shown :: shownItems rest

/-- The texts of the members of an object. -/
def shownMembers : List (String × Json) → List String
  | [] => []
  | (name, value) :: rest => (Text.quoted name ++ ": " ++ value.shown) :: shownMembers rest

end

/-- The text of a value in a message that shows a text without quotes. -/
def plain : Json → String
  | string value => value
  | json => json.shown

/-- A value in place of a number. -/
def argument : Json → Argument
  | number value => .ofNumber value
  | bool value => .truth value
  | json => .foreign json.plain

/-- An argument as a value. -/
def ofArgument : Argument → Json
  | .int value => int value
  | .truth value => bool value
  | .float value => float value
  | .foreign text => string text

/-- A value in place of a list: a text has its characters as items, and an object its names. -/
def argumentList : Json → ArgumentList
  | array items => .items (items.map argument)
  | string text => .items ((Text.singles text).map .foreign)
  | object members => .items (members.map fun (name, _) => .foreign name)
  | _ => .single

/-- Whether a value is absent. -/
def isNull : Json → Bool
  | null => true
  | _ => false

/-- Whether a value is nothing, zero or empty. -/
def isBlank : Json → Bool
  | null | bool false | string "" | array [] | object [] => true
  | number value => value.sameValue (.int 0)
  | _ => false

/-- The number of a value: truth values count as one and zero. -/
def number? : Json → Option Number
  | number value => some value
  | bool value => some (.int (if value then 1 else 0))
  | _ => none

/-- The integer of a value that was written as an integer or as a truth value. -/
def integral? : Json → Option Int
  | number (.int value) => some value
  | bool value => some (if value then 1 else 0)
  | _ => none

/-- The integer of a value that was written as an integer. -/
def integer? : Json → Option Int
  | number (.int value) => some value
  | _ => none

/-- Whether a value has the value of the given integer; truth values count as one and zero. -/
def isInteger (json : Json) (n : Int) : Bool :=
  match json.number? with
  | some value => value.sameValue (.int n)
  | none => false

end Json

end QuditSim
