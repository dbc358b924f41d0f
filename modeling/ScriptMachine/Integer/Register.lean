import ScriptMachine.Integer.LongDivision

/-! # Arithmetic registers

Integers that are not both small are combined through their magnitudes, which are held in registers. A
register is a trimmed magnitude. Two registers of at most one word each are combined in one machine
operation; all others go through the loops over words.

* `Register.ofUInt64`: the register of a 64-bit number.
* `Register.add`, `Register.sub`, `Register.mul`, `Register.divRem`: sums, differences without their
  sign, products, quotients and remainders.
-/

namespace ScriptMachine

namespace Register

/-- Whether a register has at most one word. -/
def isWord (ws : Words) : Bool := ws.length ≤ 1

/-- The only word of a register; zero for an empty one. -/
def word (ws : Words) : UInt32 := ws.headD 0

/-- The register of a 64-bit number. -/
def ofUInt64 (value : UInt64) : Words :=
  if value >>> 32 == 0 then
    if value == 0 then [] else [value.toUInt32]
  else Words.trim [value.toUInt32, (value >>> 32).toUInt32]

/-- The sum of two registers. -/
def add (a b : Words) : Words :=
  if isWord a && isWord b then ofUInt64 ((word a).toUInt64 + (word b).toUInt64)
  else Words.trim (Words.add a b)

/-- The distance of two registers, and whether the second one is larger. -/
def sub (a b : Words) : Bool × Words :=
  if isWord a && isWord b then
    if word b ≤ word a then (false, ofUInt64 (word a - word b).toUInt64)
    else (true, ofUInt64 (word b - word a).toUInt64)
  else
    match Words.order a b with
    | .eq => (false, [])
    | .gt => (false, Words.sub a b)
    | .lt => (true, Words.sub b a)

/-- The product of two registers. -/
def mul (a b : Words) : Words :=
  if isWord a && isWord b then ofUInt64 ((word a).toUInt64 * (word b).toUInt64)
  else Words.mul a b

/-- Quotient and remainder of two registers, the second one not zero. -/
def divRem (num den : Words) : Words × Words :=
  if isWord num && den.length == 1 then
    (Words.trim [word num / word den], ofUInt64 (word num % word den).toUInt64)
  else Words.divRem num den

end Register

end ScriptMachine
