import QuditSim.Json.Basic

/-!
# Reading JSON

`Json.parse` reads a text as one value. A text that is not a value is refused with a
`SyntaxFault`: what was expected or wrong, and at which character. Besides the standard
grammar the reader accepts the three words for numbers that are not finite, and an escape
for one half of a surrogate pair that stands alone, which is an item of the text like a
character (`Text.Item`).
-/

namespace QuditSim.Json

/-- What can be wrong with a text that should be a value. -/
inductive SyntaxProblem where
  /-- No value starts here. -/
  | expectingValue
  /-- No name in double quotes starts here. -/
  | expectingName
  /-- The colon after a name is missing. -/
  | expectingColon
  /-- The comma before the next item is missing. -/
  | expectingComma
  /-- Something follows the value. -/
  | extraData
  /-- The text that starts here has no end. -/
  | unterminatedText
  /-- A control character stands in a text. -/
  | controlCharacter
  /-- A backslash with a letter that it does not go with. -/
  | unknownEscape
  /-- A numbered escape without four hexadecimal digits. -/
  | numberedEscape
  /-- The text starts with a byte order mark. -/
  | byteOrderMark
  /-- An integer has more digits than are read. -/
  | tooManyDigits
  /-- Lists and objects are nested deeper than is read. -/
  | tooDeep
deriving DecidableEq

/-- A problem and the number of the character at which it was found. -/
structure SyntaxFault where
  /-- What is wrong. -/
  problem : SyntaxProblem
  /-- How many items of the text precede the place. -/
  offset : Nat

/-- A problem with the number of characters from its place to the end of the text. -/
abbrev Located := SyntaxProblem × Nat

/-- The blanks between the parts of a value. -/
def isGap (c : Char) : Bool := c == ' ' || c == '\t' || c == '\n' || c == '\r'

/-- The text without the blanks at its start. -/
def skipGap (text : List Char) : List Char := text.dropWhile isGap

/-- The number that four hexadecimal digits write. -/
def hexWord? (a b c d : Char) : Option Nat := do
  let digits ← [a, b, c, d].mapM Text.hexadecimalDigit?
  return digits.foldl (fun n digit => 16 * n + digit) 0

/-- The character behind a backslash with a letter. -/
def escaped? : Char → Option Char
  | '"' => some '"'
  | '\\' => some '\\'
  | '/' => some '/'
  | 'b' => some '\x08'
  | 'f' => some '\x0c'
  | 'n' => some '\n'
  | 'r' => some '\r'
  | 't' => some '\t'
  | _ => none

/-- What is kept for an item of a text, put from last to first onto what was read before. -/
def keep (item : Text.Item) (acc : List Char) : List Char := item.kept.reverse ++ acc

/-- The rest of a text in double quotes, after the opening quote. `left` counts the characters
from the opening quote to the end of the input, and `acc` holds the characters read so far from
last to first. -/
def readText (left : Nat) (acc : List Char) :
    List Char → Except Located (String × List Char)
  | [] => .error (.unterminatedText, left)
  | '"' :: rest => .ok (String.ofList acc.reverse, rest)
  | ['\\'] => .error (.unterminatedText, left)
  | '\\' :: 'u' :: a :: b :: c :: d :: next :: rest =>
    match hexWord? a b c d with
    | none => .error (.numberedEscape, rest.length + 6)
    | some unit =>
      -- a high half is joined with a low one that follows it, and is else kept by itself
      if Text.isHighHalf unit then
        match next, _tail : rest with
        | '\\', 'u' :: e :: f :: g :: h :: after :: rest' =>
          match hexWord? e f g h with
          | none => .error (.numberedEscape, rest'.length + 6)
          | some unit' =>
            if Text.isLowHalf unit' then
              readText left (keep (.char (Text.paired unit unit')) acc) (after :: rest')
            else
              -- the second escape is no low half, so it is read again by itself
              readText left (keep (.ofUnit unit) acc)
                ('\\' :: 'u' :: e :: f :: g :: h :: after :: rest')
        | _, _ => readText left (keep (.ofUnit unit) acc) (next :: rest)
      else if Text.isLowHalf unit then readText left (keep (.ofUnit unit) acc) (next :: rest)
      else readText left (Char.ofNat unit :: acc) (next :: rest)
  | '\\' :: 'u' :: rest => .error (.numberedEscape, rest.length + 1)
  | '\\' :: c :: rest =>
    match escaped? c with
    | some character => readText left (character :: acc) rest
    | none => .error (.unknownEscape, rest.length + 2)
  | c :: rest =>
    if c.toNat ≤ 0x1F then .error (.controlCharacter, rest.length + 1)
    else readText left (c :: acc) rest
termination_by text => text.length
decreasing_by all_goals simp_all +arith

/-- Whether a character is a digit of a number. -/
def isDigit (c : Char) : Bool := '0' ≤ c && c ≤ '9'

/-- The natural number that digits write. -/
def digitsValue (digits : List Char) : Nat :=
  digits.foldl (fun n c => 10 * n + (c.toNat - 48)) 0

/-- The digits before the point: a zero alone, or digits that start with another one. -/
def wholePart : List Char → Option (List Char × List Char)
  | '0' :: rest => some (['0'], rest)
  | text =>
    if text.head?.any isDigit then some (text.takeWhile isDigit, text.dropWhile isDigit) else none

/-- The digits behind a point, if a point with digits is next. -/
def fractionPart : List Char → List Char × List Char
  | '.' :: rest =>
    if rest.head?.any isDigit then (rest.takeWhile isDigit, rest.dropWhile isDigit)
    else ([], '.' :: rest)
  | text => ([], text)

/-- The exponent, if a mark with digits is next. -/
def exponentMark (text : List Char) : Option (Int × List Char) :=
  match text with
  | mark :: rest =>
    if mark == 'e' || mark == 'E' then
      let (negative, digits) := match rest with
        | '-' :: more => (true, more)
        | '+' :: more => (false, more)
        | more => (false, more)
      if digits.head?.any isDigit then
        let value := digitsValue (digits.takeWhile isDigit)
        some (if negative then -(value : Int) else value, digits.dropWhile isDigit)
      else none
    else none
  | [] => none

/-- The double that is nearest to `n * 10 ^ e`, for a number `n` of at most the given count of
digits. Far outside the range of doubles the power of ten is not computed. -/
def decimalValue (n digits : Nat) (e : Int) : Float :=
  if n = 0 || e + digits < -400 then 0.0
  else if 400 < e then 1.0 / 0.0
  else Float.ofScientific n (e < 0) e.natAbs

/-- The most digits that an integer may be written with. -/
def integerDigitLimit : Nat := 4300

/-- The number at the start of a text. -/
def readNumber (text : List Char) : Except Located (Number × List Char) :=
  let (negative, body) := match text with
    | '-' :: rest => (true, rest)
    | rest => (false, rest)
  match wholePart body with
  | none => .error (.expectingValue, text.length)
  | some (whole, afterWhole) =>
    let (fraction, afterFraction) := fractionPart afterWhole
    let exponent := exponentMark afterFraction
    let rest := (exponent.map (·.2)).getD afterFraction
    -- only digits alone make an integer, and point or exponent make a double
    if fraction.isEmpty && exponent.isNone then
      if integerDigitLimit < whole.length then .error (.tooManyDigits, text.length)
      else
        let n : Int := digitsValue whole
        .ok (.int (if negative then -n else n), rest)
    else
      let digits := whole ++ fraction
      let value := decimalValue (digitsValue digits) digits.length
        ((exponent.map (·.1)).getD 0 - fraction.length)
      .ok (.float (if negative then -value else value), rest)

/-- The text after a word at its start. -/
def afterWord? (word : String) (text : List Char) : Option (List Char) :=
  if word.toList.isPrefixOf text then some (text.drop word.length) else none

/-- The words that stand for values. -/
def words : List (String × Json) :=
  [("null", null), ("true", bool true), ("false", bool false), ("NaN", float (0.0 / 0.0)),
    ("Infinity", float (1.0 / 0.0)), ("-Infinity", float (-1.0 / 0.0))]

mutual

/-- The value at the start of a text, read in at most `fuel` steps. There may be `room` levels
of lists and objects in it. -/
def readValue : Nat → Nat → List Char → Except Located (Json × List Char)
  | 0, _, text => .error (.expectingValue, text.length)
  | fuel + 1, room, text =>
    match text with
    | '"' :: rest => do
      let (value, rest) ← readText text.length [] rest
      return (string value, rest)
    | '[' :: rest =>
      -- the depth counts when a list opens, also for an empty one
      match room, skipGap rest with
      | 0, _ => .error (.tooDeep, text.length)
      | _, ']' :: rest => .ok (array [], rest)
      | room + 1, rest => do
        let (items, rest) ← readItems fuel room rest
        return (array items, rest)
    | '\x7b' :: rest =>
      match room, skipGap rest with
      | 0, _ => .error (.tooDeep, text.length)
      | _, '\x7d' :: rest => .ok (object [], rest)
      | room + 1, rest => do
        let (members, rest) ← readMembers fuel room [] rest
        return (object members, rest)
    | text =>
      match words.findSome? fun (word, value) => (afterWord? word text).map (value, ·) with
      | some (value, rest) => .ok (value, rest)
      | none => do
        let (value, rest) ← readNumber text
        return (number value, rest)

/-- The items of a list that is not empty, up to its closing bracket. -/
def readItems : Nat → Nat → List Char → Except Located (List Json × List Char)
  | 0, _, text => .error (.expectingValue, text.length)
  | fuel + 1, room, text => do
    let (item, rest) ← readValue fuel room text
    match skipGap rest with
    | ']' :: rest => return ([item], rest)
    | ',' :: rest =>
      let (items, rest) ← readItems fuel room (skipGap rest)
      return (item :: items, rest)
    | rest => throw (.expectingComma, rest.length)

/-- The members of an object that is not empty, up to its closing bracket, put onto those
before them. -/
def readMembers : Nat → Nat → List (String × Json) → List Char →
    Except Located (List (String × Json) × List Char)
  | 0, _, _, text => .error (.expectingName, text.length)
  | fuel + 1, room, members, text =>
    match text with
    | '"' :: rest => do
      let (name, rest) ← readText text.length [] rest
      match skipGap rest with
      | ':' :: rest =>
        let (value, rest) ← readValue fuel room (skipGap rest)
        -- a name that comes again keeps its place and gets the later value
        let members := put members name value
        match skipGap rest with
        | '\x7d' :: rest => return (members, rest)
        | ',' :: rest => readMembers fuel room members (skipGap rest)
        | rest => throw (.expectingComma, rest.length)
      | rest => throw (.expectingColon, rest.length)
    | text => .error (.expectingName, text.length)

end

/-- The most levels of lists and objects that are read. -/
def depthLimit : Nat := 985

/-- The one value that a text writes, with blanks around it. -/
def parse (text : String) : Except SyntaxFault Json :=
  let characters := text.toList
  let length := characters.length
  let found : Except Located Json := do
    if characters.head? = some '\ufeff' then throw (.byteOrderMark, length)
    let (value, rest) ← readValue (2 * length + 2) depthLimit (skipGap characters)
    let rest := skipGap rest
    if rest.isEmpty then return value else throw (.extraData, rest.length)
  found.mapError fun (problem, left) =>
    ⟨problem, (Text.items (characters.take (length - left))).length⟩

/-- The wording of a problem. -/
def SyntaxProblem.message : SyntaxProblem → String
  | expectingValue => "Expecting value"
  | expectingName => "Expecting property name enclosed in double quotes"
  | expectingColon => "Expecting ':' delimiter"
  | expectingComma => "Expecting ',' delimiter"
  | extraData => "Extra data"
  | unterminatedText => "Unterminated string starting at"
  | controlCharacter => "Invalid control character at"
  | unknownEscape => "Invalid \\escape"
  | numberedEscape => "Invalid \\uXXXX escape"
  | byteOrderMark => "Unexpected UTF-8 BOM (decode using utf-8-sig)"
  | tooManyDigits => "Exceeds the limit for integer string conversion"
  | tooDeep => "Nested too deeply"

/-- Whether a problem lies in the size of a text, and not in how it is written. -/
def SyntaxProblem.isExcess : SyntaxProblem → Bool
  | tooManyDigits | tooDeep => true
  | _ => false

/-- The wording of a fault, with its place in the text it was found in. -/
def SyntaxFault.message (fault : SyntaxFault) (text : String) : String :=
  let before := (Text.items text.toList).take fault.offset
  let line := before.count (.char '\n') + 1
  let column := (before.reverse.takeWhile (· != .char '\n')).length + 1
  s!"{fault.problem.message}: line {line} column {column} (char {fault.offset})"

end QuditSim.Json
