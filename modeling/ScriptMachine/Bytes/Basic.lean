/-! # Byte strings

Byte strings are arrays of bytes. Numbers inside scripts are stored little-endian.

* `Bytes.ofNatLE`, `Bytes.toNatLE`: fixed-width little-endian numbers.
* `Bytes.toHex`, `Bytes.ofHex`: lower-case hexadecimal text and its reader.
-/

namespace ScriptMachine

/-- A byte string. -/
abbrev Bytes := Array UInt8

namespace Bytes

/-- The `width` low bytes of a number, least significant first. -/
def ofNatLE : (width : Nat) → Nat → Bytes
  | 0, _ => #[]
  | width + 1, n => #[UInt8.ofNat n] ++ ofNatLE width (n / 256)

/-- The number whose bytes, least significant first, are given. -/
def toNatLE (b : Bytes) : Nat :=
  b.foldr (fun byte n => byte.toNat + 256 * n) 0

/-- The UTF-8 bytes of a text. -/
def ofText (text : String) : Bytes := text.toUTF8.data

/-- Whether some byte is not zero. -/
def anyNonZero (b : Bytes) : Bool := b.any (· != 0)

/-! ### Hexadecimal text -/

/-- The lower-case digit of a number below 16. -/
def hexDigit (n : Nat) : Char :=
  if n < 10 then Char.ofNat (48 + n) else Char.ofNat (87 + n)

/-- Lower-case hexadecimal text, two digits for each byte. -/
def toHex (b : Bytes) : String :=
  String.ofList (b.toList.flatMap fun byte => [hexDigit (byte.toNat / 16), hexDigit (byte.toNat % 16)])

/-- Why a text is not hexadecimal. -/
inductive HexError where
  /-- The number of digits is odd. -/
  | oddLength
  /-- The byte at the given offset is no digit. -/
  | invalidDigit (byte : UInt8) (offset : Nat)
  deriving DecidableEq, Repr

/-- The value of a hexadecimal digit of either case. -/
def hexValue? (c : UInt8) : Option UInt8 :=
  if 48 ≤ c && c ≤ 57 then some (c - 48)
  else if 97 ≤ c && c ≤ 102 then some (c - 87)
  else if 65 ≤ c && c ≤ 70 then some (c - 55)
  else none

/-- Reads pairs of digits from the given offset on. -/
def readHexPairs (digits : Bytes) : Nat → Nat → Bytes → Except HexError Bytes
  | 0, _, out => .ok out
  | pairs + 1, offset, out =>
    let high := digits.getD offset 0
    let low := digits.getD (offset + 1) 0
    match hexValue? high, hexValue? low with
    | none, _ => .error (.invalidDigit high offset)
    | some _, none => .error (.invalidDigit low (offset + 1))
    | some h, some l => readHexPairs digits pairs (offset + 2) (out.push (16 * h + l))

/-- Reads hexadecimal text of either case. An odd length is reported before a wrong digit. -/
def ofHex (text : String) : Except HexError Bytes :=
  let digits := ofText text
  if digits.size % 2 == 1 then .error .oddLength
  else readHexPairs digits (digits.size / 2) 0 #[]

end Bytes

end ScriptMachine
