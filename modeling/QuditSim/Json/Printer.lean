import QuditSim.Json.Basic

/-!
# Writing JSON

`Json.print` writes a value over several lines, each level indented by two blanks, and
`Json.printLine` writes it on one line. Characters outside the control range are written as they
are. An empty list and an empty object stay on one line.
-/

namespace QuditSim.Json

/-- One character of a text in double quotes. -/
def printedChar (c : Char) : String :=
  if c == '"' then "\\\""
  else if c == '\\' then "\\\\"
  else if c == '\n' then "\\n"
  else if c == '\r' then "\\r"
  else if c == '\t' then "\\t"
  else if c == '\x0c' then "\\f"
  else if c == '\x08' then "\\b"
  else if c.toNat < 0x20 then "\\u" ++ Text.hexadecimal c.toNat 4
  else String.singleton c

/-- A text in double quotes. -/
def printedText (text : String) : String :=
  "\"" ++ String.join (text.toList.map printedChar) ++ "\""

/-- A number: doubles by their shortest digits, the others by their words. -/
def printedNumber : Number → String
  | .int value => toString value
  | .float value =>
    if value.isNaN then "NaN"
    else if value.isInf then (if value < 0 then "-Infinity" else "Infinity")
    else Decimal.shortest value

/-- The start of a line at a level of nesting. -/
def lineStart (level : Nat) : String := "\n" ++ String.ofList (List.replicate (2 * level) ' ')

mutual

/-- A value whose inner lines start at the given level of nesting. -/
def printAt (level : Nat) : Json → String
  | null => "null"
  | bool value => if value then "true" else "false"
  | number value => printedNumber value
  | string value => printedText value
  | array [] => "[]"
  | array items =>
    "[" ++ ",".intercalate (printItems (level + 1) items) ++ lineStart level ++ "]"
  | object [] => "\x7b\x7d"
  | object members =>
    "\x7b" ++ ",".intercalate (printMembers (level + 1) members) ++ lineStart level ++ "\x7d"

/-- The items of a list, each on a line of its own. -/
def printItems (level : Nat) : List Json → List String
  | [] => []
  | item :: rest => (lineStart level ++ item.printAt level) :: printItems level rest

/-- The members of an object, each on a line of its own. -/
def printMembers (level : Nat) : List (String × Json) → List String
  | [] => []
  | (name, value) :: rest =>
    (lineStart level ++ printedText name ++ ": " ++ value.printAt level) ::
      printMembers level rest

end

/-- The text of a value. -/
def print (json : Json) : String := json.printAt 0

mutual

/-- The text of a value on one line. -/
def printLine : Json → String
  | null => "null"
  | bool value => if value then "true" else "false"
  | number value => printedNumber value
  | string value => printedText value
  | array items => "[" ++ ",".intercalate (printLineItems items) ++ "]"
  | object members => "\x7b" ++ ",".intercalate (printLineMembers members) ++ "\x7d"

/-- The items of a list, each on one line. -/
def printLineItems : List Json → List String
  | [] => []
  | item :: rest => item.printLine :: printLineItems rest

/-- The members of an object, each on one line. -/
def printLineMembers : List (String × Json) → List String
  | [] => []
  | (name, value) :: rest => (printedText name ++ ":" ++ value.printLine) :: printLineMembers rest

end

end QuditSim.Json
