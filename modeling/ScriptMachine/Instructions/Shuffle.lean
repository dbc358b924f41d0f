import ScriptMachine.Frame

/-! # Rearranging stacks

Instructions that move and copy items of a frame. The indexed ones pop their index first.
-/

namespace ScriptMachine

namespace Instructions

/-- Copies the top of the alternative stack. -/
def dupFromAltStack : FrameM Unit := do
  let x ← MonadExcept.ofExcept ((← get).alt.peek 0)
  Frame.push x

/-- Moves the top item to the alternative stack. -/
def toAltStack : FrameM Unit := do
  let x ← Frame.pop
  modify fun f => { f with alt := x :: f.alt }

/-- Moves the top of the alternative stack back. -/
def fromAltStack : FrameM Unit := do
  let f ← get
  let (x, alt) ← MonadExcept.ofExcept f.alt.pop
  set { f with alt }
  Frame.push x

/-- Removes the item at a popped index. -/
def xdrop : FrameM Unit := do
  let n ← Frame.popIndex "XDROP index"
  let _ ← Frame.remove n

/-- Swaps the top with the item at a popped index. -/
def xswap : FrameM Unit := do
  let n ← Frame.popIndex "XSWAP index"
  if n != 0 then
    let deep ← Frame.peek n
    let top ← Frame.peek 0
    Frame.replace n top
    Frame.replace 0 deep

/-- Inserts a copy of the top at a popped position. -/
def xtuck : FrameM Unit := do
  let n ← Frame.popInt32
  if n ≤ 0 then throw (.tuckIndex n)
  let top ← Frame.peek 0
  Frame.insert n.toNat top

/-- Pushes the number of items. -/
def depth : FrameM Unit := do
  Frame.push (.ofNat (← Frame.evalDepth))

/-- Removes the top item. -/
def drop : FrameM Unit := do
  let _ ← Frame.pop

/-- Copies the top item. -/
def dup : FrameM Unit := do
  Frame.push (← Frame.peek 0)

/-- Removes the second item. -/
def nip : FrameM Unit := do
  let _ ← Frame.remove 1

/-- Copies the second item. -/
def copySecond : FrameM Unit := do
  Frame.push (← Frame.peek 1)

/-- Copies the item at a popped index. -/
def pick : FrameM Unit := do
  let n ← Frame.popIndex "PICK index"
  Frame.push (← Frame.peek n)

/-- Moves the item at a popped index to the top. -/
def roll : FrameM Unit := do
  let n ← Frame.popIndex "ROLL index"
  if n != 0 then
    Frame.push (← Frame.remove n)

/-- Moves the third item to the top. -/
def rot : FrameM Unit := do
  Frame.push (← Frame.remove 2)

/-- Swaps the two top items. -/
def swap : FrameM Unit := do
  Frame.push (← Frame.remove 1)

/-- Inserts a copy of the top below the second item. -/
def tuck : FrameM Unit := do
  let top ← Frame.peek 0
  Frame.insert 2 top

end Instructions

end ScriptMachine
