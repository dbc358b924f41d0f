import ScriptMachine.Bytes.Basic
import ScriptMachine.Text.Blank

/-! # Hexadecimal text from people

Scripts and messages are given as hexadecimal text. White space around the text and one mark `0x` in
front of it are allowed.

* `Text.readHex`: the bytes of such a text.
* `Bytes.HexError.message`: what is wrong with a text.
-/

namespace ScriptMachine

namespace Text

/-- The bytes of a hexadecimal text. -/
def readHex (s : String) : Except Bytes.HexError Bytes :=
  let digits :=
    match (trimBlanks s).toList with
    | '0' :: 'x' :: rest => rest
    | '0' :: 'X' :: rest => rest
    | chars => chars
  Bytes.ofHex (String.ofList digits)

/-- The hexadecimal numeral of a number, without leading zeros. -/
def hexNumeral (n : Nat) : String := String.ofList (Nat.toDigits 16 n)

/-- A character below 256 in quotes. Characters that leave no trace on paper are written by their
number, but for the most common ones. -/
def quotedChar (n : Nat) : String :=
  if n == 0 then "'\\0'"
  else if n == 9 then "'\\t'"
  else if n == 10 then "'\\n'"
  else if n == 13 then "'\\r'"
  else if n == 39 then "'\\''"
  else if n == 92 then "'\\\\'"
  else if n < 32 || (127 ≤ n && n ≤ 160) || n == 173 then
    "'\\u\x7b" ++ hexNumeral n ++ "\x7d'"
  else "'" ++ String.singleton (Char.ofNat n) ++ "'"

end Text

/-- What is wrong with a hexadecimal text. A wrong byte is shown as the character of its number. -/
def Bytes.HexError.message : Bytes.HexError → String
  | .oddLength => "Odd number of digits"
  | .invalidDigit byte offset =>
    "Invalid character " ++ Text.quotedChar byte.toNat ++ s!" at position {offset}"

end ScriptMachine
