import QuditSim.Logging.Level
import QuditSim.Text.Quoted

/-!
# Templates of records

How a record is written: a text in which fields stand for the severity, the name of the logger
and the message. A field is a name in brackets behind a percent sign, with a letter behind it
that says how the value is written; flags, a least width, and a greatest width behind a point
may stand before the letter. `Template.parse?` refuses a text in which nothing looks like a field.
-/

namespace QuditSim

/-- A place in a template for a value. -/
structure TemplateField where
  /-- The name of the value. -/
  name : String
  /-- The flags. -/
  flags : List Char
  /-- The least width. -/
  least : Nat
  /-- The greatest width of a text, and the least number of digits of a number. -/
  most : Option Nat
  /-- The letter that says how the value is written. -/
  conversion : Char
deriving DecidableEq, Repr

/-- A part of a template. -/
inductive TemplatePart where
  /-- A character that stands for itself. -/
  | character (c : Char)
  /-- A field. -/
  | field (field : TemplateField)
deriving DecidableEq, Repr

/-- How records are written. -/
abbrev Template : Type := List TemplatePart

/-- A record: who tells what, and how severe it is. -/
structure LogRecord where
  /-- The name of the logger. -/
  logger : String
  /-- How severe the record is. -/
  severity : Severity
  /-- The message. -/
  message : String
deriving DecidableEq, Repr

namespace Template

/-- Whether a character can stand in the name of a field. -/
def isNameChar (c : Char) : Bool := c.isAlphanum || c == '_'

/-- Whether a character can end a field. -/
def isConversion (c : Char) : Bool := "diouxefgcrsa%".toList.contains c.toLower

/-- The number at the start of a text, zero without digits, and what follows it. -/
def readWidth (text : List Char) : Nat × List Char :=
  ((text.takeWhile Char.isDigit).foldl (fun n d => 10 * n + (d.toNat - 48)) 0,
    text.dropWhile Char.isDigit)

/-- The greatest width at the start of a text, if there is one, and what follows it. -/
def readMost : List Char → Option Nat × List Char
  | '.' :: rest =>
    if rest.head?.any Char.isDigit then
      let (most, rest) := readWidth rest
      (some most, rest)
    else (none, '.' :: rest)
  | text => (none, text)

/-- The field behind the opening bracket of its name, and what follows it. -/
def readField? (text : List Char) : Option (TemplatePart × List Char) :=
  let name := text.takeWhile isNameChar
  match text.dropWhile isNameChar with
  | ')' :: rest =>
    let flags := rest.takeWhile ("#0+ -".toList.contains ·)
    let (least, rest) := readWidth (rest.dropWhile ("#0+ -".toList.contains ·))
    match readMost rest with
    | (most, c :: rest) =>
      if name.isEmpty || !isConversion c then none
      else some (.field ⟨String.ofList name, flags, least, most, c⟩, rest)
    | (_, []) => none
  | _ => none

/-- The parts of a text of at most `fuel` characters. A doubled percent sign stands for one. -/
def parts : Nat → List Char → Template
  | 0, _ => []
  | _, [] => []
  | fuel + 1, '%' :: '(' :: rest =>
    match readField? rest with
    | some (part, rest) => part :: parts fuel rest
    | none => .character '%' :: parts fuel ('(' :: rest)
  | fuel + 1, '%' :: '%' :: rest => .character '%' :: parts fuel rest
  | fuel + 1, c :: rest => .character c :: parts fuel rest

/-- What follows a width, which is a star or some digits, at the start of a text. -/
def afterWidth : List Char → List Char
  | '*' :: rest => rest
  | text => text.dropWhile Char.isDigit

/-- What follows a point with a width behind it, if they are at the start of a text. -/
def afterMost : List Char → List Char
  | '.' :: rest =>
    if rest.head?.any fun c => c.isDigit || c == '*' then afterWidth rest else '.' :: rest
  | text => text

/-- Whether a text looks like a field behind the opening bracket of its name. A star can stand for
a width here, though it gives none when a record is written. -/
def looksLikeField (text : List Char) : Bool :=
  match text.dropWhile isNameChar with
  | ')' :: rest =>
    text.head?.any isNameChar &&
      (afterMost (afterWidth (rest.dropWhile ("#0+ -".toList.contains ·)))).head?.any isConversion
  | _ => false

/-- Whether something in a text looks like a field, be it only behind a doubled percent sign. -/
def hasField : List Char → Bool
  | [] => false
  | c :: rest =>
    (c == '%' && rest.head? == some '(' && looksLikeField rest.tail) || hasField rest

/-- The template that a text writes, refused if nothing in it looks like a field. -/
def parse? (text : String) : Except LoggingFault Template :=
  if hasField text.toList then .ok (parts text.length text.toList) else .error .noField

/-- The template that is used when none is given. -/
def standardText : String := "[%(levelname)s] %(name)s: %(message)s"

/-- The template that is used when none is given, as parts. -/
def standard : Template := parts standardText.length standardText.toList

/-- The value of a field. -/
inductive FieldValue where
  /-- A text. -/
  | text (value : String)
  /-- A number. -/
  | number (value : Nat)

/-- The value of a field for a record; a field that is not known is empty. -/
def valueOf (record : LogRecord) : String → FieldValue
  | "levelname" => .text record.severity.name
  | "levelno" => .number record.severity.level.toNat
  | "name" => .text record.logger
  | "message" => .text record.message
  | _ => .text ""

/-- A text filled up with blanks to the least width of a field. -/
def filled (field : TemplateField) (text : String) : String :=
  let blanks := String.ofList (List.replicate (field.least - text.length) ' ')
  if field.flags.contains '-' then text ++ blanks else blanks ++ text

/-- A text cut off at the greatest width of a field and filled up to the least one. -/
def fitted (field : TemplateField) (text : String) : String :=
  filled field (match field.most with
    | some most => String.ofList (text.toList.take most)
    | none => text)

/-- The base in which a letter writes numbers, with the mark of the base. -/
def baseOf : Char → Nat × String
  | 'x' => (16, "0x")
  | 'X' => (16, "0X")
  | 'o' => (8, "0o")
  | _ => (10, "")

/-- A number in the base of a field, with the sign and the mark that its flags ask for. -/
def numeral (field : TemplateField) (n : Nat) : String :=
  let (base, mark) := baseOf field.conversion
  let digits := Nat.toDigits base n
  let digits := if field.conversion = 'X' then digits.map Char.toUpper else digits
  let digits := List.replicate (field.most.getD 0 - digits.length) '0' ++ digits
  let sign :=
    if field.flags.contains '+' then "+" else if field.flags.contains ' ' then " " else ""
  let front := sign ++ (if field.flags.contains '#' then mark else "")
  let fill := field.flags.contains '0' && !field.flags.contains '-'
  let zeros := if fill then field.least - (front.length + digits.length) else 0
  filled field (front ++ String.ofList (List.replicate zeros '0' ++ digits))

/-- A value as a field writes it. -/
def valueText (field : TemplateField) : FieldValue → String
  | .text value => fitted field (if field.conversion = 'r' then Text.quoted value else value)
  | .number n =>
    if "diuxXo".toList.contains field.conversion then numeral field n
    else fitted field (toString n)

/-- A record as a template writes it. -/
def write (template : Template) (record : LogRecord) : String :=
  String.join (template.map fun
    | .character c => String.singleton c
    | .field field => valueText field (valueOf record field.name))

example : hasField "%%(name)s".toList = true := by decide +kernel

example : hasField "%(name)5.s".toList = false := by decide +kernel

example : standard.write ⟨"a", .info, "text"⟩ = "[INFO] a: text" := by decide +kernel

example : write (parts 16 "%(levelno)-4.1s|".toList) ⟨"a", .info, "text"⟩ = "2   |" := by
  decide +kernel

example : write (parts 16 "%(levelno)#06x".toList) ⟨"a", .info, "text"⟩ = "0x0014" := by
  decide +kernel

end Template

end QuditSim
