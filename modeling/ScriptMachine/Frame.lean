import ScriptMachine.Crypto.Suite
import ScriptMachine.Stack

/-! # Scripts, frames and the call stack

A script is a byte string with its hash. A frame runs a script: it has a cursor, a return count and two
stacks. The call stack holds the frames up to a greatest depth.

* `Script.of`: a script with its hash.
* `Frame.setCursor`, `Frame.readBytes` and the readers of numbers: moving through a script. A reader
  that fails keeps what it has read before.
* `CallStack.push`, `CallStack.pop`, `CallStack.peek?`, `CallStack.remove`: the frames.
-/

namespace ScriptMachine

/-- A script and the hash that names it. -/
structure Script where
  /-- The bytes of the script. -/
  body : Bytes
  /-- The hash of the bytes. -/
  hash : Bytes
  deriving DecidableEq, Repr, Inhabited

namespace Script

/-- The length of a script hash. -/
def hashSize : Nat := 20

/-- A script with its hash. -/
def of (crypto : CryptoSuite) (body : Bytes) : Script := ⟨body, crypto.hash160 body⟩

/-- The number of bytes. -/
def length (s : Script) : Nat := s.body.size

/-- The byte at an offset, if the script reaches it. -/
def byte? (s : Script) (offset : Nat) : Option UInt8 := s.body[offset]?

/-- A one-line summary. -/
def summary (s : Script) : String :=
  let length := s.length
  "Script \x7b len: " ++ s!"{length}" ++ ", hash: Some(\"" ++ s.hash.toHex ++ "\") \x7d"

end Script

/-- The return count that stands for all items. -/
def returnAll : Int := -1

/-- One activation of a script. -/
structure Frame where
  /-- The script that runs. -/
  script : Script
  /-- The offset of the next byte to read. -/
  cursor : Nat := 0
  /-- The number of items to return, or -1 for all. -/
  returnCount : Int := returnAll
  /-- The evaluation stack. -/
  eval : Stack := []
  /-- The alternative stack. -/
  alt : Stack := []
  deriving DecidableEq, Repr, Inhabited

/-- Computations that read and change a frame; the frame is kept when they fail. -/
abbrev FrameM := ExceptT Fault (StateM Frame)

namespace Frame

/-- The byte at the cursor, if there is one. -/
def currentByte? (f : Frame) : Option UInt8 := f.script.byte? f.cursor

/-- Moves the cursor; the end of the script is allowed. -/
def setCursor (target : Nat) : FrameM Unit := do
  let f ← get
  if target ≤ f.script.length then set { f with cursor := target }
  else throw (.targetOutside target f.script.length)

/-! ### Reading operands -/

/-- Reads the next bytes and moves past them. -/
def readBytes (count : Nat) : FrameM Bytes := do
  let f ← get
  let stop := f.cursor + count
  if stop ≤ f.script.length then
    set { f with cursor := stop }
    return f.script.body.extract f.cursor stop
  else throw (.truncated count f.cursor)

/-- Reads an unsigned little-endian number of the given width in bytes. -/
def readNat (width : Nat) : FrameM Nat := do
  let b ← readBytes width
  return b.toNatLE

/-- Reads one byte. -/
def readByte : FrameM Nat := readNat 1

/-- Reads a signed number of two bytes. -/
def readInt16 : FrameM Int := do
  let n ← readNat 2
  return if n < 0x8000 then (n : Int) else (n : Int) - 0x10000

/-- Reads a number of variable width that is at most `max`: one byte below `0xFD`, else two, four or
eight bytes after a mark. -/
def readVarNat (max : Nat) : FrameM Nat := do
  let mark ← readByte
  let value ←
    if mark == 0xFD then readNat 2
    else if mark == 0xFE then readNat 4
    else if mark == 0xFF then readNat 8
    else pure mark
  if value > max then throw (.tooLarge value max)
  return value

/-- Reads a length of at most `max` and that many bytes. -/
def readVarBytes (max : Nat) : FrameM Bytes := do
  let length ← readVarNat max
  readBytes length

/-! ### The evaluation stack -/

/-- Pushes an item. -/
def push (x : Item) : FrameM Unit := modify fun f => { f with eval := x :: f.eval }

/-- Pops the top item. -/
def pop : FrameM Item := do
  let f ← get
  let (x, eval) ← MonadExcept.ofExcept f.eval.pop
  set { f with eval }
  return x

/-- The item at a position of the evaluation stack. -/
def peek (n : Nat) : FrameM Item := do
  MonadExcept.ofExcept ((← get).eval.peek n)

/-- Takes out the item at a position of the evaluation stack. -/
def remove (n : Nat) : FrameM Item := do
  let f ← get
  let (x, eval) ← MonadExcept.ofExcept (f.eval.remove n)
  set { f with eval }
  return x

/-- Inserts an item at a position of the evaluation stack. -/
def insert (n : Nat) (x : Item) : FrameM Unit := do
  let f ← get
  let eval ← MonadExcept.ofExcept (f.eval.insert n x)
  set { f with eval }

/-- Replaces the item at a position of the evaluation stack. -/
def replace (n : Nat) (x : Item) : FrameM Unit := do
  let f ← get
  let eval ← MonadExcept.ofExcept (Stack.set f.eval n x)
  set { f with eval }

/-- The number of items on the evaluation stack. -/
def evalDepth : FrameM Nat := return (← get).eval.length

/-- Takes the top items of the evaluation stack off, as a stack of their own. -/
def takeTop (count : Nat) : FrameM Stack := do
  let f ← get
  let (top, eval) ← MonadExcept.ofExcept (f.eval.split count)
  set { f with eval }
  return top

/-- Pops an item as a signed 32-bit number. -/
def popInt32 : FrameM Int := do
  let x ← pop
  MonadExcept.ofExcept x.int32

/-- Pops an item as a count or an index. -/
def popIndex (what : String) : FrameM Nat := do
  let value ← popInt32
  if value < 0 then throw (.negative what value)
  return value.toNat

/-- Pops an item as a byte string. -/
def popBytes : FrameM Bytes := do
  let x ← pop
  MonadExcept.ofExcept x.byteView

end Frame

/-- The frames of a machine, the innermost one first, with their greatest number. -/
structure CallStack where
  /-- The frames, the innermost one first. -/
  frames : List Frame := []
  /-- The most frames allowed. -/
  maxDepth : Nat
  deriving DecidableEq, Repr, Inhabited

namespace CallStack

/-- The number of frames. -/
def depth (c : CallStack) : Nat := c.frames.length

/-- Adds a frame, unless the stack is full. -/
def push (c : CallStack) (f : Frame) : Except Fault CallStack :=
  if c.frames.length < c.maxDepth then .ok { c with frames := f :: c.frames }
  else .error (.tooManyFrames c.maxDepth)

/-- Takes the innermost frame. -/
def pop (c : CallStack) : Option (Frame × CallStack) :=
  match c.frames with
  | [] => none
  | f :: frames => some (f, { c with frames })

/-- The frame at a position, counted from the innermost one. -/
def peek? (c : CallStack) (n : Nat) : Option Frame := c.frames[n]?

/-- Replaces the frame at a position. -/
def set (c : CallStack) (n : Nat) (f : Frame) : CallStack := { c with frames := c.frames.set n f }

/-- Takes out the frame at a position. -/
def remove (c : CallStack) (n : Nat) : CallStack := { c with frames := c.frames.eraseIdx n }

/-- The outermost frame. -/
def bottom? (c : CallStack) : Option Frame := c.frames.getLast?

/-- Takes out all frames. -/
def clear (c : CallStack) : CallStack := { c with frames := [] }

end CallStack

end ScriptMachine
