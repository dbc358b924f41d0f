import ScriptMachine.Engine.Exec

/-! # Constants

Instructions that push constants, most of them read from the script.
-/

namespace ScriptMachine

namespace Instructions

/-- Pushes the next `count` bytes of the script. -/
def pushOperand (count : Nat) : Exec Unit := do
  Exec.pushBytes (← Exec.onFrame (Frame.readBytes count))

/-- Pushes the empty byte string. -/
def pushEmpty : Exec Unit := Exec.pushBytes #[]

/-- Pushes as many bytes as the opcode byte says. -/
def pushDirect (i : Instruction) : Exec Unit := pushOperand i.op.toByte.toNat

/-- Pushes bytes whose number is given in `width` bytes. -/
def pushCounted (width : Nat) : Exec Unit := do
  let max := (← Exec.limits).maxItemSize
  let length ← Exec.onFrame (Frame.readNat width)
  if length > max then throw (.tooLarge length max)
  pushOperand length

/-- Pushes -1. -/
def pushMinusOne : Exec Unit := Exec.push (.integer (.small (-1)))

/-- Pushes the number that the opcode byte encodes, one for `0x51`. -/
def pushSmall (i : Instruction) : Exec Unit := Exec.pushNat ((i.op.toByte - 0x51).toNat + 1)

end Instructions

end ScriptMachine
