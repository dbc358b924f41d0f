import ScriptMachine.Integer.Basic
import ScriptMachine.Integer.Register

/-! # Integer arithmetic

Sums, differences, products and truncated division. Two small operands are combined in 64-bit
arithmetic, which cannot overflow; all other operands go through registers.

* `Integer.neg`, `Integer.abs`, `Integer.add`, `Integer.sub`, `Integer.mul`.
* `Integer.div?`, `Integer.rem?`: quotient rounded toward zero and remainder with the sign of the
  dividend; nothing for a zero divisor.
-/

namespace ScriptMachine

namespace Integer

/-- The negated integer. -/
def neg : Integer → Integer
  | small v => small (-v)
  | large negative ws => large (!negative) ws

/-- The absolute value. -/
def abs (a : Integer) : Integer := if a.isNegative then a.neg else a

/-- The difference of two magnitudes, with the sign that the first one would have. -/
def signedDifference (negative : Bool) (a b : Words) : Integer :=
  let (flipped, distance) := Register.sub a b
  ofMagnitude (negative != flipped) distance

/-- The sum of two integers. -/
def add (a b : Integer) : Integer :=
  match a, b with
  | small x, small y => ofInt64 (x.toInt64 + y.toInt64)
  | _, _ =>
    if a.isZero then b
    else if b.isZero then a
    else if a.isNegative == b.isNegative then
      ofMagnitude a.isNegative (Register.add a.magnitude b.magnitude)
    else signedDifference a.isNegative a.magnitude b.magnitude

/-- The difference of two integers. -/
def sub (a b : Integer) : Integer :=
  match a, b with
  | small x, small y => ofInt64 (x.toInt64 - y.toInt64)
  | _, _ =>
    if a.isZero then b.neg
    else if b.isZero then a
    else if a.isNegative == b.isNegative then
      signedDifference a.isNegative a.magnitude b.magnitude
    else ofMagnitude a.isNegative (Register.add a.magnitude b.magnitude)

/-- The product of two integers. -/
def mul (a b : Integer) : Integer :=
  match a, b with
  | small x, small y => ofInt64 (x.toInt64 * y.toInt64)
  | _, _ => ofMagnitude (a.isNegative != b.isNegative) (Register.mul a.magnitude b.magnitude)

/-- The quotient rounded toward zero; nothing for a zero divisor. -/
def div? (a d : Integer) : Option Integer :=
  if d.isZero then none
  else
    match a, d with
    | small x, small y => some (ofInt64 (x.toInt64 / y.toInt64))
    | _, _ =>
      some (ofMagnitude (a.isNegative != d.isNegative) (Register.divRem a.magnitude d.magnitude).1)

/-- The remainder with the sign of the dividend; nothing for a zero divisor. -/
def rem? (a d : Integer) : Option Integer :=
  if d.isZero then none
  else
    match a, d with
    | small x, small y => some (ofInt64 (x.toInt64 % y.toInt64))
    | _, _ => some (ofMagnitude a.isNegative (Register.divRem a.magnitude d.magnitude).2)

end Integer

end ScriptMachine
