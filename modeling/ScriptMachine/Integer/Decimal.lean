import ScriptMachine.Integer.Basic

/-! # Decimal text of integers

* `Integer.chunks`: the magnitude in base `10^9`, least significant chunk first.
* `Integer.toDecimal`: the usual decimal numeral.
-/

namespace ScriptMachine

namespace Integer

/-- The magnitude in base `10^9`, least significant chunk first. A word takes less than two chunks,
so that twice the number of words is enough fuel. -/
def chunks : Nat → Words → List Nat
  | _, [] => []
  | 0, _ => []
  | fuel + 1, ws =>
    let (quotient, rem) := Words.divRemWord ws 1000000000
    rem.toNat :: chunks fuel quotient

/-- The decimal digits of a number, without leading zeros. -/
def decimalDigits (n : Nat) : List Char := Nat.toDigits 10 n

/-- The decimal digits of a number below `10^9`, filled with zeros to nine places. -/
def paddedDigits (n : Nat) : List Char :=
  let ds := decimalDigits n
  List.replicate (9 - ds.length) '0' ++ ds

/-- The digits of a magnitude: the top chunk plain, the others filled to nine places. -/
def magnitudeDigits (ws : Words) : List Char :=
  match (chunks (2 * ws.length) ws).reverse with
  | [] => []
  | top :: rest => decimalDigits top ++ rest.flatMap paddedDigits

/-- The decimal numeral: a minus sign below zero, then the digits without leading zeros. -/
def toDecimal : Integer → String
  | small v =>
    String.ofList ((if v < 0 then ['-'] else []) ++ decimalDigits v.toInt.natAbs)
  | large negative ws =>
    String.ofList ((if negative then ['-'] else []) ++ magnitudeDigits ws)

end Integer

end ScriptMachine
