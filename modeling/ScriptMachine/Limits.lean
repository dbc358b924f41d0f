/-! # Limits

The bounds under which a machine runs. `Limits.traversal` bounds the walks through nested structs.
-/

namespace ScriptMachine

/-- The largest unsigned 64-bit number. Sizes, gas and products of limits stop there. -/
def maxUInt64 : Nat := 0xFFFFFFFFFFFFFFFF

/-- The bounds under which a machine runs. -/
structure Limits where
  /-- The most items on all stacks together. -/
  maxStackSize : Nat := 2048
  /-- The longest byte string. -/
  maxItemSize : Nat := 1048576
  /-- The most frames. -/
  maxInvocationStackSize : Nat := 1024
  /-- The most elements or entries of a container. -/
  maxArraySize : Nat := 1024
  /-- The longest byte form of an integer operand or result. -/
  maxBigIntegerSize : Nat := 32
  /-- The largest shift amount. -/
  maxShift : Int := 65535
  /-- The smallest shift amount. -/
  minShift : Int := -65535
  /-- The longest name of a host service. -/
  maxSyscallNameSize : Nat := 252
  deriving DecidableEq, Repr, Inhabited

namespace Limits

/-- The bounds of a machine that sets none. -/
def default : Limits := {}

/-- The most elements that a walk through nested structs may visit. -/
def traversal (l : Limits) : Nat := Nat.min (l.maxStackSize * l.maxArraySize) maxUInt64

end Limits

end ScriptMachine
