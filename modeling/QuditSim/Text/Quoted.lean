import QuditSim.Text.Printable
import QuditSim.Text.Surrogate

/-!
# Quoted texts

A text inside a message is shown between quotes, with every character that has no visible
form written as an escape, and so with every half of a surrogate pair. Apostrophes are the
quotes of choice; a text that contains an apostrophe and no double quote stands between double
quotes instead.
-/

namespace QuditSim.Text

/-- The quote that surrounds a text. -/
def quoteOf (text : String) : Char :=
  if text.toList.contains '\'' && !text.toList.contains '"' then '"' else '\''

/-- One character of a quoted text. -/
def quotedChar (quote c : Char) : String :=
  if c == quote || c == '\\' then String.ofList ['\\', c]
  else if c == '\n' then "\\n"
  else if c == '\r' then "\\r"
  else if c == '\t' then "\\t"
  else if isPrintable c then String.singleton c
  else if c.toNat < 0x100 then "\\x" ++ hexadecimal c.toNat 2
  else if c.toNat < 0x10000 then "\\u" ++ hexadecimal c.toNat 4
  else "\\U" ++ hexadecimal c.toNat 8

/-- One item of a quoted text. -/
def quotedItem (quote : Char) : Item → String
  | .char c => quotedChar quote c
  | .half n => escapedHalf n

/-- A text between quotes, with escapes. -/
def quoted (text : String) : String :=
  let quote := quoteOf text
  String.singleton quote ++ String.join ((items text.toList).map (quotedItem quote)) ++
    String.singleton quote

example : quoteOf "it's" = '"' := by decide +kernel
example : quotedChar '"' '\'' = "'" := by decide +kernel
example : quotedChar '\'' '\u200b' = "\\u200b" := by decide +kernel

end QuditSim.Text
