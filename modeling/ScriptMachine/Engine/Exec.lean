import ScriptMachine.Engine.State

/-! # Computations of instructions

An instruction is a computation on the state of a machine that may end in a fault; what it did before
the fault stays done.

* `Exec`: computations on a state.
* `Exec.onFrame`: runs a computation of the innermost frame.
* `Exec.push`, `Exec.pushBytes`, `Exec.pushArray` and so on: results.
-/

namespace ScriptMachine

/-- Computations on a state; the state is kept when they fail. -/
abbrev Exec := ExceptT Fault (StateM State)

namespace Exec

/-- Runs a computation of the innermost frame; there must be one. -/
def onFrame {α : Type} (m : FrameM α) : Exec α := do
  let s ← get
  match s.frames with
  | [] => throw .noCurrentFrame
  | f :: rest =>
    let (result, f) := m.run f
    set (s.setFrames (f :: rest))
    MonadExcept.ofExcept result

/-- The bounds of the machine. -/
def limits : Exec Limits := return (← get).limits

/-- The objects of the machine. -/
def heap : Exec Heap := return (← get).heap

/-- Replaces the objects of the machine. -/
def setHeap (heap : Heap) : Exec Unit := modify fun s => { s with heap }

/-- Pops the top item of the innermost frame. -/
def pop : Exec Item := onFrame Frame.pop

/-- Pushes an item on the innermost frame. -/
def push (x : Item) : Exec Unit := onFrame (Frame.push x)

/-- Pushes a truth value. -/
def pushBool (b : Bool) : Exec Unit := push (.boolean b)

/-- Pushes a size or a count. -/
def pushNat (n : Nat) : Exec Unit := push (.ofNat n)

/-- Creates an object and pushes it. -/
def pushNew (create : Heap → Item × Heap) : Exec Unit := do
  let (x, h) := create (← heap)
  setHeap h
  push x

/-- Pushes a new byte string. -/
def pushBytes (data : Bytes) : Exec Unit := pushNew (·.newBytes data)

/-- Pushes a new array. -/
def pushArray (items : List Item) : Exec Unit := pushNew (·.newArray items)

/-- Pushes a new struct. -/
def pushStruct (items : List Item) : Exec Unit := pushNew (·.newStruct items)

/-- Copies a struct; any other item stays as it is. -/
def copyValue (x : Item) : Exec Item := do
  let s ← get
  let (copy, h) ← MonadExcept.ofExcept (s.heap.copyValue x s.limits.traversal)
  setHeap h
  return copy

/-- Adds an entry to the journal. -/
def record (e : Event) : Exec Unit := modify (·.record e)

/-- Asks the host for the message to sign. -/
def askMessage : Exec Bytes := do
  let s ← get
  match s.message with
  | none => throw .noMessage
  | some message =>
    record (.messageAsked s.session.iteration)
    return message s.session.iteration

/-- Checks a signature. -/
def checkSignature (message signature key : Bytes) : Exec Bool := do
  record (.signatureChecked message signature key)
  return (← get).crypto.verify message signature key

end Exec

end ScriptMachine
