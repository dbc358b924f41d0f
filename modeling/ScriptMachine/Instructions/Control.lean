import ScriptMachine.Engine.Exec

/-! # Control flow

Jumps, calls inside a script, returns and requested faults, and the parts of calls between scripts that
need no host. Offsets are signed numbers of two bytes, relative to the opcode.
-/

namespace ScriptMachine

namespace Instructions

/-! ### Jumps -/

/-- Reads an offset and resolves it against an origin. The target may be the end of the script. -/
def readTarget (origin : Nat) : FrameM Nat := do
  let offset ← Frame.readInt16
  let target := (origin : Int) + offset
  if target < 0 || ((← get).script.length : Int) < target then
    throw (.offsetOutside offset origin)
  return target.toNat

/-- Jumps, on a condition for the two conditional opcodes. The target is checked in any case. -/
def jump (i : Instruction) : FrameM Unit := do
  let target ← readTarget i.position
  let taken ←
    match i.op with
    | .jmpIf => do pure (← Frame.pop).truth
    | .jmpIfNot => do pure (!(← Frame.pop).truth)
    | _ => pure true
  if taken then Frame.setCursor target

/-! ### Calls inside a script -/

/-- Adds a frame. -/
def pushFrame (f : Frame) : Exec Unit := do
  let s ← get
  let calls ← MonadExcept.ofExcept (s.session.calls.push f)
  set { s with session := { s.session with calls } }

/-- Calls a routine of the same script, which takes over the whole evaluation stack and returns all
that it leaves. -/
def call (i : Instruction) : Exec Unit := do
  let callee ← Exec.onFrame do
    Frame.setCursor (i.position + 3)
    let eval ← Frame.takeTop (← Frame.evalDepth)
    return { script := (← get).script, cursor := i.position + 1, eval : Frame }
  pushFrame callee
  Exec.onFrame (jump i)

/-- Calls a routine of the same script with as many items as announced; it has to return as many items
as announced. The offset counts from the byte after the two counts. -/
def callIsolated (i : Instruction) : Exec Unit := do
  let callee ← Exec.onFrame do
    let returnCount ← Frame.readByte
    let parameterCount ← Frame.readByte
    let target ← readTarget (i.position + 2)
    let eval ← Frame.takeTop parameterCount
    return { script := (← get).script, cursor := target, returnCount, eval : Frame }
  pushFrame callee

/-! ### Returns -/

/-- The number of items a frame may not return with: an error unless it has as many as it declares. -/
def checkReturn (f : Frame) : Except Fault Unit :=
  if f.returnCount == returnAll then .ok ()
  else if f.returnCount < 0 then .error (.badReturnCount f.returnCount)
  else if f.eval.length != f.returnCount.toNat then
    .error (.returnCountMismatch f.returnCount.toNat f.eval.length)
  else .ok ()

/-- Returns from a frame: its items go to the caller, or to the results when it was the last frame. A
frame that returns all its items also hands over its alternative stack. -/
def ret : Exec Unit := do
  let s ← get
  match s.frames with
  | [] => throw .noCurrentFrame
  | f :: rest =>
    set (s.setFrames rest)
    MonadExcept.ofExcept (checkReturn f)
    match rest with
    | [] =>
      let s := s.setFrames []
      let results := s.session.results.pushAll f.eval
      set ({ s with session := { s.session with results } }.setStatus .halted)
    | caller :: outer =>
      let alt := if f.returnCount == returnAll then caller.alt.pushAll f.alt else caller.alt
      set (s.setFrames ({ caller with eval := caller.eval.pushAll f.eval, alt } :: outer))

/-! ### Calls between scripts -/

/-- Reads a script hash. -/
def readHash : FrameM Bytes := Frame.readBytes Script.hashSize

/-- Pops a script hash. -/
def popHash : FrameM Bytes := do
  let hash ← Frame.popBytes
  if hash.size != Script.hashSize then throw (.scriptHashLength hash.size)
  return hash

/-- Moves the top items of the caller, all of them if no number is given, to the frame that was pushed
on top of it. -/
def moveArguments (count : Option Nat) : Exec Unit := do
  let s ← get
  match s.frames with
  | callee :: caller :: rest =>
    let (top, eval) ← MonadExcept.ofExcept
      (caller.eval.split (count.getD caller.eval.length))
    set (s.setFrames
      ({ callee with eval := callee.eval.pushAll top } :: { caller with eval } :: rest))
  | _ => throw .noCallingFrame

/-- Takes out the frame below the innermost one. -/
def dropCaller : Exec Unit :=
  modify fun s => { s with session := { s.session with calls := s.session.calls.remove 1 } }

/-! ### Requested faults -/

/-- Faults. -/
def throwAlways (i : Instruction) : Exec Unit := throw (.thrown .throw i.position)

/-- Faults if the popped item is false. -/
def throwIfNot (i : Instruction) : Exec Unit := do
  let x ← Exec.pop
  if !x.truth then throw (.thrown .throwIfNot i.position)

end Instructions

end ScriptMachine
