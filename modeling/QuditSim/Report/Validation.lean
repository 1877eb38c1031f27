import QuditSim.Json.Basic

/-!
# The layout of circuit reports

A report describes a circuit as an object: the sizes of the registers, the steps in order with
their kinds, indices and names, the counts, and possibly the operators. `Report.validate`
checks that the fields are there and that their values have the right kinds and ranges; the
first thing that is wrong decides the `ReportFault`.

The fields of a report are:

- `version`, the text `Report.version`;
- `n_qudits`, `n_dits`, `dim`, `gate_count` and `measurement_count`, integers from a least value on;
- `name`, a text, which may be left out;
- `steps`, the list of steps, where each has `step`, `type`, `targets` and `name`, and where it
  applies `controls`, `dit` and `operand`;
- `measured` and `non_measured`, lists of qudits;
- `operands`, `metadata` and `endian`, which may be left out.
-/

namespace QuditSim

/-- Where in a report something is wrong. -/
inductive ReportPlace where
  /-- In the report itself. -/
  | report
  /-- In the step at an index. -/
  | step (index : Nat)
deriving DecidableEq, Repr

/-- The text of a place. -/
def ReportPlace.text : ReportPlace → String
  | report => "Circuit report"
  | step index => "Step at index " ++ toString index

/-- What is wrong with a list of indices. -/
inductive IndexListFault where
  /-- It is no list. -/
  | notList
  /-- An item is no integer. -/
  | notInteger (place : Nat) (kind : String)
  /-- An item is out of range. -/
  | outOfRange (place : Nat) (value bound : Int)
deriving DecidableEq, Repr

/-- What is wrong with a report. -/
inductive ReportFault where
  /-- The value at a place is no object. -/
  | notObject (place : ReportPlace)
  /-- A field is missing. -/
  | missing (place : ReportPlace) (field : String)
  /-- The version is another one. -/
  | unsupportedVersion (given : String)
  /-- A field is no integer. -/
  | notInteger (field : String)
  /-- A field is too small. -/
  | tooSmall (field : String) (least value : Int)
  /-- A field is no text. -/
  | notText (field : String)
  /-- A field is no list. -/
  | notList (field : String)
  /-- A field is no object. -/
  | notMap (field : String)
  /-- The number of a step is not its place. -/
  | stepNumber (index : Nat) (given : String)
  /-- A field of a step is no text. -/
  | stepNotText (index : Nat) (field : String)
  /-- A field is no list of indices in range. -/
  | indexList (place : ReportPlace) (field : String) (fault : IndexListFault)
  /-- The dit of a step is out of range. -/
  | ditRange (index : Nat) (given : String) (bound : Int)
  /-- An operator lacks a field. -/
  | incompleteOperand (key : String)
  /-- The order of bytes is neither of the two. -/
  | unknownOrder (given : String)
deriving DecidableEq, Repr

namespace Report

/-- The version of the layout. -/
def version : String := "quditflow-json-1.0"

end Report

namespace ReportFault

/-- The text of a fault in a list of indices. -/
def listText (start field : String) : IndexListFault → String
  | .notList => start ++ ": field '" ++ field ++ "' must be a list."
  | .notInteger place kind =>
    start ++ ": " ++ field ++ "[" ++ toString place ++ "] must be an integer, got " ++ kind ++ "."
  | .outOfRange place value bound =>
    start ++ ": " ++ field ++ "[" ++ toString place ++ "] = " ++ toString value ++
      " is out of range [0, " ++ toString bound ++ ")."

/-- The text of a fault. -/
def message : ReportFault → String
  | notObject place => place.text ++ " must be a dictionary object."
  | missing place field => place.text ++ " missing required field '" ++ field ++ "'."
  | unsupportedVersion given =>
    "Unsupported report version " ++ given ++ ", expected " ++ Text.quoted Report.version ++ "."
  | notInteger field => "Field '" ++ field ++ "' must be an integer."
  | tooSmall field least value =>
    "Field '" ++ field ++ "' must be >= " ++ toString least ++ ", got " ++ toString value ++ "."
  | notText field => "Field '" ++ field ++ "' must be a string."
  | notList field => "Field '" ++ field ++ "' must be a list."
  | notMap field => "Field '" ++ field ++ "' must be a dictionary."
  | stepNumber index given =>
    (ReportPlace.step index).text ++ ": field 'step' must be " ++ toString index ++ ", got " ++
      given ++ "."
  | stepNotText index field =>
    (ReportPlace.step index).text ++ ": field '" ++ field ++ "' must be a string."
  | indexList place field fault => listText place.text field fault
  | ditRange index given bound =>
    (ReportPlace.step index).text ++ ": field 'dit' = " ++ given ++ " is out of range [0, " ++
      toString bound ++ ")."
  | incompleteOperand key =>
    "Operand " ++ Text.quoted key ++ " must have fields 'shape', 'real' and 'imag'."
  | unknownOrder given => "Field 'endian' must be 'little' or 'big', got " ++ given ++ "."

end ReportFault

namespace Report

/-- The fields that are integers, with their least values. -/
def integerFields : List (String × Int) :=
  [("n_qudits", 1), ("n_dits", 0), ("dim", 2), ("gate_count", 0), ("measurement_count", 0)]

/-- The field of a report, which has to be there. -/
def field (report : Json) (place : ReportPlace) (name : String) : Except ReportFault Json :=
  match report.get? name with
  | some value => .ok value
  | none => .error (.missing place name)

/-- Refuses values that are no objects. -/
def checkObject (place : ReportPlace) : Json → Except ReportFault Unit
  | .object _ => .ok ()
  | _ => .error (.notObject place)

/-- Refuses a field that is no integer from a least value on. -/
def checkInteger (report : Json) (name : String) (least : Int) : Except ReportFault Unit := do
  match (← field report .report name).integer? with
  | none => throw (.notInteger name)
  | some value => if value < least then throw (.tooSmall name least value)

/-- Whether a value is a text. -/
def isText : Json → Bool
  | .string _ => true
  | _ => false

/-- Refuses the items, from a place on, that are no integers in the range below a bound. -/
def checkItems (bound : Int) : List Json → Nat → Except IndexListFault Unit
  | [], _ => .ok ()
  | item :: rest, place =>
    match item.integer? with
    | none => .error (.notInteger place item.kindName)
    | some value =>
      if value < 0 ∨ bound ≤ value then .error (.outOfRange place value bound)
      else checkItems bound rest (place + 1)

/-- Refuses a field that is no list of integers in the range below a bound. -/
def checkIndices (place : ReportPlace) (name : String) (bound : Int) (value : Json) :
    Except ReportFault Unit :=
  match value with
  | .array items => (checkItems bound items 0).mapError (.indexList place name)
  | _ => .error (.indexList place name .notList)

/-- Whether characters contain others side by side. -/
def containsChars (part : List Char) : List Char → Bool
  | [] => part.isEmpty
  | c :: rest => part.isPrefixOf (c :: rest) || containsChars part rest

/-- Whether the kind of a step names control by dits. -/
def namesDitControl (kind : String) : Bool := containsChars "cCTRL".toList kind.toList

/-- The text that a value is, and the empty text for other values. -/
def textOf : Json → String
  | .string text => text
  | _ => ""

/-- Refuses a dit out of range; truth values count as one and zero. -/
def checkDit (index : Nat) (dits : Int) (value : Json) : Except ReportFault Unit :=
  match value.integral? with
  | some n => if 0 ≤ n ∧ n < dits then .ok () else .error (.ditRange index value.shown dits)
  | none => .error (.ditRange index value.shown dits)

/-- Refuses a step that does not follow the layout. -/
def checkStep (qudits dits : Int) (index : Nat) (entry : Json) : Except ReportFault Unit := do
  let place := ReportPlace.step index
  checkObject place entry
  -- all fields have to be there before any of them is looked at
  let number ← field entry place "step"
  let kind ← field entry place "type"
  let targets ← field entry place "targets"
  let name ← field entry place "name"
  if !number.isInteger index then throw (.stepNumber index number.plain)
  if !isText kind then throw (.stepNotText index "type")
  if !isText name then throw (.stepNotText index "name")
  checkIndices place "targets" qudits targets
  if let some dit := entry.get? "dit" then checkDit index dits dit
  if let some controls := entry.get? "controls" then
    -- controls are dits or qudits, which the name of the kind tells
    checkIndices place "controls" (if namesDitControl (textOf kind) then dits else qudits) controls
  if let some operand := entry.get? "operand" then
    if !isText operand then throw (.stepNotText index "operand")

/-- Refuses steps, from an index on, that do not follow the layout. -/
def checkSteps (qudits dits : Int) : List Json → Nat → Except ReportFault Unit
  | [], _ => .ok ()
  | entry :: rest, index => do
    checkStep qudits dits index entry
    checkSteps qudits dits rest (index + 1)

/-- Whether a value is an object with the fields of an operator. -/
def holdsOperator (value : Json) : Bool :=
  ["shape", "real", "imag"].all fun name => (value.get? name).isSome

/-- Refuses operators that lack a field. -/
def checkOperands : List (String × Json) → Except ReportFault Unit
  | [] => .ok ()
  | (key, value) :: rest =>
    if holdsOperator value then checkOperands rest else .error (.incompleteOperand key)

/-- Whether a value names an order of bytes. -/
def isByteOrder : Json → Bool
  | .string text => text == "little" || text == "big"
  | _ => false

/-- The integer of a field, and zero if there is none. -/
def integerField (report : Json) (name : String) : Int :=
  ((report.get? name).bind Json.integer?).getD 0

/-- Refuses a value that does not follow the layout of reports. -/
def validate (report : Json) : Except ReportFault Unit := do
  checkObject .report report
  let given ← field report .report "version"
  if !(isText given && textOf given == version) then throw (.unsupportedVersion given.shown)
  -- the counts are checked before the indices, whose ranges they give
  integerFields.forM fun (name, least) => checkInteger report name least
  if let some name := report.get? "name" then
    if !isText name then throw (.notText "name")
  let qudits := integerField report "n_qudits"
  let dits := integerField report "n_dits"
  match ← field report .report "steps" with
  | .array entries => checkSteps qudits dits entries 0
  | _ => throw (.notList "steps")
  checkIndices .report "measured" qudits (← field report .report "measured")
  checkIndices .report "non_measured" qudits (← field report .report "non_measured")
  match report.get? "operands" with
  | none => pure ()
  | some (.object members) => checkOperands members
  | some _ => throw (.notMap "operands")
  match report.get? "metadata" with
  | none | some (.object _) => pure ()
  | some _ => throw (.notMap "metadata")
  if let some order := report.get? "endian" then
    if !isByteOrder order then throw (.unknownOrder order.shown)

end Report

end QuditSim
