import ScriptMachine.Frame
import ScriptMachine.Limits

/-! # Numbers

Instructions on integers. Operands are checked by the length of their byte view, results by the length
of their byte form.

* `Instructions.popInteger`, `Instructions.pushInteger`: bounded operands and results.
* `Instructions.unary`, `Instructions.binary`, `Instructions.compare`: the shapes of instructions.
-/

namespace ScriptMachine

namespace Instructions

/-- Pops an integer operand whose byte view is within the bound. -/
def popInteger (limits : Limits) : FrameM Integer := do
  let x ← Frame.pop
  let size ← MonadExcept.ofExcept x.byteViewSize
  if size > limits.maxBigIntegerSize then throw (.tooLarge size limits.maxBigIntegerSize)
  MonadExcept.ofExcept x.integerValue

/-- Pushes an integer whose byte form is within the bound. -/
def pushInteger (limits : Limits) (value : Integer) : FrameM Unit := do
  let size := value.byteLength
  if size > limits.maxBigIntegerSize then throw (.tooLarge size limits.maxBigIntegerSize)
  Frame.push (.integer value)

/-- Replaces an integer by a function of it. -/
def unary (limits : Limits) (op : Integer → Integer) : FrameM Unit := do
  let a ← popInteger limits
  pushInteger limits (op a)

/-- Replaces two integers, the second one on top, by a function of them that may fail. -/
def binary (limits : Limits) (op : Integer → Integer → Except Fault Integer) : FrameM Unit := do
  let b ← popInteger limits
  let a ← popInteger limits
  let r ← MonadExcept.ofExcept (op a b)
  pushInteger limits r

/-- Replaces two integers, the second one on top, by a truth value. -/
def compare (limits : Limits) (op : Integer → Integer → Bool) : FrameM Unit := do
  let b ← popInteger limits
  let a ← popInteger limits
  Frame.push (.boolean (op a b))

/-! ### Arithmetic -/

/-- The quotient, rounded toward zero. -/
def quotient (a b : Integer) : Except Fault Integer :=
  match a.div? b with
  | some q => .ok q
  | none => .error (.quotientByZero a)

/-- The remainder, with the sign of the dividend. -/
def remainder (a b : Integer) : Except Fault Integer :=
  match a.rem? b with
  | some r => .ok r
  | none => .error (.remainderByZero a)

/-- The sign of an integer as an integer. -/
def signInteger (a : Integer) : Integer := .small a.signum

/-- Pops a shift amount in the allowed range. -/
def popShift (limits : Limits) : FrameM Int := do
  let amount ← Frame.popInt32
  if amount < limits.minShift || limits.maxShift < amount then
    throw (.shiftOutside amount limits.minShift limits.maxShift)
  return amount

/-- Shifts the operand below the amount; an amount of zero leaves it in place, whatever it is. -/
def shift (limits : Limits) (op : Integer → Int → Integer) : FrameM Unit := do
  let amount ← popShift limits
  if amount != 0 then
    let a ← popInteger limits
    pushInteger limits (op a amount)

/-- Whether `x` lies in the range from `a` up to but without `b`; `b` is on top, `x` at the bottom. -/
def within (limits : Limits) : FrameM Unit := do
  let b ← popInteger limits
  let a ← popInteger limits
  let x ← popInteger limits
  Frame.push (.boolean (a.atMost x && x.less b))

/-! ### Truth -/

/-- Whether an integer is not zero. -/
def nonZero (limits : Limits) : FrameM Unit := do
  let a ← popInteger limits
  Frame.push (.boolean (!a.isZero))

/-- Logical negation of any item. -/
def logicalNot : FrameM Unit := do
  let x ← Frame.pop
  Frame.push (.boolean (!x.truth))

/-- A logical connective of any two items. -/
def logical (op : Bool → Bool → Bool) : FrameM Unit := do
  let b ← Frame.pop
  let a ← Frame.pop
  Frame.push (.boolean (op a.truth b.truth))

end Instructions

end ScriptMachine
