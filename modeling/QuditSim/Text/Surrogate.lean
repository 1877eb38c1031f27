import QuditSim.Text.Hexadecimal

/-!
# Halves of surrogate pairs

A text can be written by escapes that name its characters by units of sixteen bits. A character
beyond the first plane takes two units, a pair; a unit that stands without its partner names no
character. Texts here hold such halves as well: an item of a text is a character or a half
(`Item`), and among the characters that are kept for the items (`ofItems`) a mark in front tells
a half from a character. The mark stands in front of itself where it is meant as a character.
-/

namespace QuditSim.Text

/-- Whether a unit is the first half of a pair. -/
def isHighHalf (unit : Nat) : Bool := 0xD800 ≤ unit && unit < 0xDC00

/-- Whether a unit is the second half of a pair. -/
def isLowHalf (unit : Nat) : Bool := 0xDC00 ≤ unit && unit < 0xE000

/-- The character that the two halves of a pair name. -/
def paired (high low : Nat) : Char :=
  Char.ofNat (0x10000 + (high - 0xD800) * 0x400 + (low - 0xDC00))

/-- What a text is made of. -/
inductive Item where
  /-- A character. -/
  | char (c : Char)
  /-- A half without its partner, counted from the first of all halves. -/
  | half (n : Fin 0x800)
deriving DecidableEq

/-- The half that a unit is. -/
def Item.ofUnit (unit : Nat) : Item := .half (Fin.ofNat 0x800 (unit - 0xD800))

/-- Whether an item is a half without its partner. -/
def Item.isHalf : Item → Bool
  | char _ => false
  | half _ => true

/-- The mark in front of what is kept for a half. -/
def mark : Char := Char.ofNat 0x10FFFF

/-- The character behind the mark of a half. -/
def markedHalf (n : Fin 0x800) : Char := Char.ofNat (0x4E00 + n)

/-- The characters that are kept for an item. -/
def Item.kept : Item → List Char
  | char c => if c = mark then [mark, mark] else [c]
  | half n => [mark, markedHalf n]

/-- The item that a character behind the mark is kept for. -/
def behindMark (c : Char) : Item :=
  if c = mark then .char mark else .half (Fin.ofNat 0x800 (c.toNat - 0x4E00))

/-- The items that characters are kept for. -/
def items : List Char → List Item
  | [] => []
  | [c] => [.char c]
  | c :: d :: rest =>
    if c = mark then behindMark d :: items rest else .char c :: items (d :: rest)

/-- The text of some items. -/
def ofItems (xs : List Item) : String := String.ofList (xs.flatMap Item.kept)

/-- The text whose items are characters. -/
def ofCharacters (characters : List Char) : String := ofItems (characters.map .char)

/-- The items of a text, each as a text of its own. -/
def singles (text : String) : List String := (items text.toList).map fun x => ofItems [x]

/-- Whether a text has a half without its partner. Such a text has no form in bytes. -/
def hasLoneHalf (text : String) : Bool := (items text.toList).any Item.isHalf

/-- The escape of a half. -/
def escapedHalf (n : Fin 0x800) : String := "\\u" ++ hexadecimal (0xD800 + n) 4

/-- An item as it is, a half as its escape. -/
def Item.written : Item → String
  | char c => String.singleton c
  | half n => escapedHalf n

/-- The characters of a text, with halves without their partners as escapes. -/
def withEscapedHalves (text : String) : String :=
  if text.contains mark then String.join ((items text.toList).map Item.written) else text

example : singles "ab" = ["a", "b"] := by decide +kernel
example : escapedHalf 0 = "\\ud800" := by decide +kernel

end QuditSim.Text
