import ScriptMachine.Engine.Exec

/-! # Byte strings

Instructions that join and cut byte strings, and the size and equality of items.
-/

namespace ScriptMachine

namespace Instructions

/-- Joins two byte strings, the second one on top. -/
def cat : Exec Unit := do
  let max := (← Exec.limits).maxItemSize
  let second ← Exec.pop
  let first ← Exec.pop
  let size1 ← MonadExcept.ofExcept first.byteViewSize
  let size2 ← MonadExcept.ofExcept second.byteViewSize
  if size1 + size2 > max then throw (.tooLarge (size1 + size2) max)
  let b1 ← MonadExcept.ofExcept first.byteView
  let b2 ← MonadExcept.ofExcept second.byteView
  Exec.pushBytes (b1 ++ b2)

/-- Takes at most `count` bytes from an index on. -/
def substr : Exec Unit := do
  let count ← Exec.onFrame (Frame.popIndex "SUBSTR count")
  let index ← Exec.onFrame (Frame.popIndex "SUBSTR index")
  let b ← Exec.onFrame Frame.popBytes
  if index > b.size then throw (.substrBeyond index b.size)
  Exec.pushBytes (b.extract index (index + Nat.min count (b.size - index)))

/-- Takes at most `count` leading bytes. -/
def left : Exec Unit := do
  let count ← Exec.onFrame (Frame.popIndex "LEFT count")
  let b ← Exec.onFrame Frame.popBytes
  Exec.pushBytes (b.extract 0 count)

/-- Takes `count` trailing bytes. -/
def right : Exec Unit := do
  let count ← Exec.onFrame (Frame.popIndex "RIGHT count")
  let b ← Exec.onFrame Frame.popBytes
  if count > b.size then throw (.rightBeyond count b.size)
  Exec.pushBytes (b.extract (b.size - count) b.size)

/-- The number of elements of a container, or the length of the byte view. -/
def size : Exec Unit := do
  let x ← Exec.pop
  match (← Exec.heap).length? x with
  | some n => Exec.pushNat n
  | none => Exec.pushNat (← MonadExcept.ofExcept x.byteViewSize)

/-- Compares two items. -/
def equal : Exec Unit := do
  let limit := (← Exec.limits).traversal
  let b ← Exec.pop
  let a ← Exec.pop
  Exec.pushBool (← MonadExcept.ofExcept ((← Exec.heap).equalsWithin a b limit))

end Instructions

end ScriptMachine
