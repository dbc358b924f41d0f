import ScriptMachine.Integer.Arithmetic

/-! # Bits and shifts of integers

Bitwise operations read an integer as its two's-complement expansion, which repeats the sign without
end. Shifts scale by powers of two and round toward negative infinity.

* `Integer.toTwosComplement`, `Integer.ofTwosComplement`: words with a sign bit at the top.
* `Integer.and`, `Integer.or`, `Integer.xor`, `Integer.not`.
* `Integer.shiftLeft`, `Integer.shiftRight`: a negative amount shifts the other way.
-/

namespace ScriptMachine

namespace Integer

/-- Whether the top bit of the last word is set. -/
def signBit (ws : Words) : Bool :=
  match ws.getLast? with
  | some w => w &&& 0x80000000 != 0
  | none => false

/-- Two's-complement words: one word of sign is appended when the top bit would misstate it. -/
def toTwosComplement (a : Integer) : Words :=
  if a.isZero then [0]
  else if a.isNegative then
    let ws := Words.negate a.magnitude
    if signBit ws then ws else ws ++ [0xFFFFFFFF]
  else
    let ws := a.magnitude
    if signBit ws then ws ++ [0] else ws

/-- The integer of two's-complement words. -/
def ofTwosComplement (ws : Words) : Integer :=
  if signBit ws then ofMagnitude true (Words.negate ws) else ofMagnitude false ws

/-- Combines two word lists place by place, each one extended by its own filler. -/
def zipFilled (op : UInt32 → UInt32 → UInt32) (fillA fillB : UInt32) (a b : Words) : Words :=
  (List.range (Nat.max a.length b.length)).map fun i => op (a.getD i fillA) (b.getD i fillB)

/-- Applies an operation on words to the two's-complement expansions of two integers. -/
def bitwise (op : UInt32 → UInt32 → UInt32) (a b : Integer) : Integer :=
  match a, b with
  | small x, small y => ofInt64 (op x.toUInt32 y.toUInt32).toInt32.toInt64
  | _, _ =>
    let fill (negative : Bool) : UInt32 := if negative then 0xFFFFFFFF else 0
    ofTwosComplement (zipFilled op (fill a.isNegative) (fill b.isNegative)
      a.toTwosComplement b.toTwosComplement)

/-- Bitwise conjunction. -/
def and (a b : Integer) : Integer := bitwise (· &&& ·) a b

/-- Bitwise disjunction. -/
def or (a b : Integer) : Integer := bitwise (· ||| ·) a b

/-- Bitwise exclusive disjunction. -/
def xor (a b : Integer) : Integer := bitwise (· ^^^ ·) a b

/-- Bitwise complement, which is `-(a + 1)`. -/
def not (a : Integer) : Integer := (a.add one).neg

/-- `a * 2^amount`. -/
def scaleUp (a : Integer) (amount : Nat) : Integer :=
  if a.isZero || amount == 0 then a
  else ofMagnitude a.isNegative (Words.shiftLeft a.magnitude amount)

/-- `a / 2^amount` rounded toward negative infinity. Below zero the magnitude is rounded up, as
`((m - 1) >> amount) + 1`. -/
def scaleDown (a : Integer) (amount : Nat) : Integer :=
  if a.isZero || amount == 0 then a
  else if a.isNegative then
    ofMagnitude true (Words.add (Words.shiftRight (Words.sub a.magnitude [1]) amount) [1])
  else ofMagnitude false (Words.shiftRight a.magnitude amount)

/-- Shifts left; a negative amount shifts right. -/
def shiftLeft (a : Integer) (amount : Int) : Integer :=
  if 0 ≤ amount then a.scaleUp amount.natAbs else a.scaleDown amount.natAbs

/-- Shifts right; a negative amount shifts left. -/
def shiftRight (a : Integer) (amount : Int) : Integer :=
  if 0 ≤ amount then a.scaleDown amount.natAbs else a.scaleUp amount.natAbs

end Integer

end ScriptMachine
