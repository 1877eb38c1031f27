import QuditSim.Text.Integer

/-!
# Hexadecimal numbers

Keys of operators and escapes in texts are written in hexadecimal digits, small letters, with
zeros in front up to a least width. Keys are read in small and in capital letters, with or
without a mark in front (`hexadecimalInteger?`).
-/

namespace QuditSim.Text

/-- The lower-case hexadecimal digits of a number, padded with zeros to a least width. -/
def hexadecimal (n width : Nat) : String :=
  let digits := Nat.toDigits 16 n
  String.ofList (List.replicate (width - digits.length) '0' ++ digits)

/-- An integer in hexadecimal digits. A sign stands in front of the zeros and counts towards
the width. -/
def signedHexadecimal (n : Int) (width : Nat) : String :=
  if n < 0 then "-" ++ hexadecimal n.natAbs (width - 1) else hexadecimal n.natAbs width

/-- The value of a hexadecimal digit. -/
def hexadecimalDigit? (c : Char) : Option Nat :=
  if '0' ≤ c && c ≤ '9' then some (c.toNat - 48)
  else if 'a' ≤ c && c ≤ 'f' then some (c.toNat - 87)
  else if 'A' ≤ c && c ≤ 'F' then some (c.toNat - 55)
  else none

/-- The digits behind the mark of hexadecimal digits, if there is one. -/
def unmarked : List Char → List Char
  | '0' :: 'x' :: '_' :: rest | '0' :: 'X' :: '_' :: rest => rest
  | '0' :: 'x' :: rest | '0' :: 'X' :: rest => rest
  | body => body

/-- The number that hexadecimal digits write. Decimal digits may be of any script. -/
def ofHexadecimal? (body : List Char) : Option Nat :=
  digits? 16 (fun c => hexadecimalDigit? c <|> digit? c) 0 (unmarked body)

/-- The integer that a text writes in hexadecimal digits, if it writes one. -/
def hexadecimalInteger? (text : String) : Option Int := signedNumber? ofHexadecimal? text

example : hexadecimalInteger? "-1f" = some (-31) := by decide +kernel
example : hexadecimalInteger? "0x_1F" = some 31 := by decide +kernel
example : hexadecimalInteger? "0x" = none := by decide +kernel
example : hexadecimalInteger? "zz" = none := by decide +kernel
example : hexadecimal 10 4 = "000a" := by decide +kernel
example : signedHexadecimal (-18) 4 = "-012" := by decide +kernel

end QuditSim.Text
