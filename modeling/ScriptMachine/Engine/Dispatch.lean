import ScriptMachine.Engine.Host
import ScriptMachine.Instructions.Container
import ScriptMachine.Instructions.Control
import ScriptMachine.Instructions.Numeric
import ScriptMachine.Instructions.Push
import ScriptMachine.Instructions.Shuffle
import ScriptMachine.Instructions.Signature
import ScriptMachine.Instructions.Splice

/-! # Engines and the behaviour of opcodes

An engine is a state with the callbacks of its host and a table of behaviours. A callback is out of its
place while it runs, so that it cannot be entered again from within; afterwards it is put back, unless
the host has put another one there.

* `Behaviour`, `Engine`: behaviours by opcode.
* `Engine.runProgram`: carries out a callback.
* `Engine.invokeInterop`, `Engine.loadByHash`: the two callbacks of instructions.
* `Engine.perform`: the standard behaviour of every opcode.
-/

namespace ScriptMachine

/-- What an opcode does. -/
inductive Behaviour where
  /-- What the given opcode does by default. -/
  | standard (op : OpCode)
  /-- Fault as an invalid opcode. -/
  | invalid
  /-- A behaviour supplied by the host. -/
  | custom (run : Instruction → Exec Unit)

/-- A machine with its host. -/
structure Engine where
  /-- The machine. -/
  state : State
  /-- The behaviour of every opcode. -/
  table : OpCode → Behaviour := .standard
  /-- The service handler. -/
  interop : Option InteropHandler := none
  /-- The script loader. -/
  loader : Option ScriptLoader := none

/-- Computations on an engine; the engine is kept when they fail. -/
abbrev Run := ExceptT Fault (StateM Engine)

namespace Engine

/-- Runs a computation on the state of an engine. -/
def onState {α : Type} (m : Exec α) : Run α := do
  let e ← get
  let (result, state) := m.run e.state
  set { e with state }
  MonadExcept.ofExcept result

/-- Runs a computation on the innermost frame of an engine. -/
def onFrame {α : Type} (m : FrameM α) : Run α := onState (Exec.onFrame m)

/-- Runs a computation that depends on the bounds of the machine on its innermost frame. -/
def onFrameWithin {α : Type} (m : Limits → FrameM α) : Run α := do
  onFrame (m (← get).state.limits)

/-! ### Callbacks -/

/-- Carries out a callback; `nested` is the step that the callback may ask for. -/
def runProgram (nested : Engine → Engine) : HostProgram → Engine → Bool × Engine
  | .answer ok, e => (ok, e)
  | .request call next, e =>
    let (reply, state) := call.perform e.state
    runProgram nested (next reply) { e with state }
  | .inspect next, e => runProgram nested (next e.state) e
  | .step next, e =>
    let e := nested e
    runProgram nested (next e.state.session.status) e
  | .setInterop handler next, e => runProgram nested next { e with interop := some handler }

/-- Asks the service handler. -/
def invokeInterop (nested : Engine → Engine) (name : Bytes) : Run Unit := do
  let e ← get
  match e.interop with
  | none => throw (.noInterop (Utf8.lossyText name))
  | some handler =>
    let (ok, e) := runProgram nested (handler name) { e with interop := none }
    set (if e.interop.isNone then { e with interop := some handler } else e)
    if !ok then throw (.serviceFailed (Utf8.lossyText name))

/-- Pushes a frame for the script with a hash: a loaded one, or one that the loader supplies by pushing
exactly one frame. -/
def loadByHash (nested : Engine → Engine) (hash : Bytes) (dynamic : Bool) (returnCount : Int) :
    Run Unit := do
  let e ← get
  match e.state.scriptIndex? hash with
  | some index =>
    let (result, state) := e.state.loadCached index returnCount
    set { e with state }
    MonadExcept.ofExcept result
  | none =>
    match e.loader with
    | none => throw .noLoader
    | some loader =>
      let before := e.state.frames.length
      let (ok, e) := runProgram nested (loader hash dynamic returnCount) { e with loader := none }
      set (if e.loader.isNone then { e with loader := some loader } else e)
      if !ok then throw (.notLoaded hash)
      let after := e.state.frames.length
      if after != before + 1 then throw (.loadedFrames hash ((after : Int) - before))

/-! ### Calls of the host -/

/-- Asks the host for a service by name. -/
def sysCall (nested : Engine → Engine) : Run Unit := do
  let name ← onFrameWithin fun limits => Frame.readVarBytes limits.maxSyscallNameSize
  invokeInterop nested name

/-- Calls a script by its hash with the whole evaluation stack. Twenty zero bytes stand for a hash on
the stack. The tail form takes the place of its frame. -/
def appCall (nested : Engine → Engine) (i : Instruction) : Run Unit := do
  let (hash, dynamic) ← onFrame do
    let hash ← Instructions.readHash
    if hash.anyNonZero then return (hash, false) else return (← Instructions.popHash, true)
  loadByHash nested hash dynamic returnAll
  onState (Instructions.moveArguments none)
  if i.op = .tailCall then onState Instructions.dropCaller

/-- Calls a script by its hash, read or popped, with as many items as announced; it has to return as
many items as announced. A tail form must not change the return count of its frame. -/
def callExternal (nested : Engine → Engine) (i : Instruction) : Run Unit := do
  let dynamic := i.op = .callED || i.op = .callEDT
  let tail := i.op = .callET || i.op = .callEDT
  let (hash, returnCount, parameterCount) ← onFrame do
    let returnCount ← Frame.readByte
    let parameterCount ← Frame.readByte
    let needed := parameterCount + if dynamic then 1 else 0
    let f ← get
    if f.eval.length < needed then throw (.underflow needed f.eval.length)
    if tail && f.returnCount != returnCount then
      throw (.tailReturnCount f.returnCount returnCount)
    let hash ← if dynamic then Instructions.popHash else Instructions.readHash
    return (hash, returnCount, parameterCount)
  loadByHash nested hash dynamic returnCount
  onState (Instructions.moveArguments (some parameterCount))
  if tail then onState Instructions.dropCaller

/-! ### Behaviours -/

open Instructions in
/-- The standard behaviour of an opcode. The instruction tells for which opcode and from which place it
was fetched; the two differ from `op` only when a table gives an opcode the behaviour of another. -/
def perform (nested : Engine → Engine) (op : OpCode) (i : Instruction) : Run Unit :=
  match op with
  | .push0 => onState pushEmpty
  | .pushBytes _ => onState (pushDirect i)
  | .pushData1 => onState (pushCounted 1)
  | .pushData2 => onState (pushCounted 2)
  | .pushData4 => onState (pushCounted 4)
  | .pushM1 => onState pushMinusOne
  | .push _ => onState (pushSmall i)
  | .nop => pure ()
  | .jmp | .jmpIf | .jmpIfNot => onFrame (jump i)
  | .call => onState (call i)
  | .ret => onState ret
  | .appCall | .tailCall => appCall nested i
  | .sysCall => sysCall nested
  | .dupFromAltStack => onFrame dupFromAltStack
  | .toAltStack => onFrame toAltStack
  | .fromAltStack => onFrame fromAltStack
  | .xdrop => onFrame xdrop
  | .xswap => onFrame xswap
  | .xtuck => onFrame xtuck
  | .depth => onFrame depth
  | .drop => onFrame drop
  | .dup => onFrame dup
  | .nip => onFrame nip
  | .over => onFrame copySecond
  | .pick => onFrame pick
  | .roll => onFrame roll
  | .rot => onFrame rot
  | .swap => onFrame swap
  | .tuck => onFrame tuck
  | .cat => onState cat
  | .substr => onState substr
  | .left => onState left
  | .right => onState right
  | .size | .arraySize => onState size
  | .invert => onFrameWithin (unary · Integer.not)
  | .and => onFrameWithin (binary · fun a b => .ok (a.and b))
  | .or => onFrameWithin (binary · fun a b => .ok (a.or b))
  | .xor => onFrameWithin (binary · fun a b => .ok (a.xor b))
  | .equal => onState equal
  | .inc => onFrameWithin (unary · (·.add .one))
  | .dec => onFrameWithin (unary · (·.sub .one))
  | .sign => onFrameWithin (unary · signInteger)
  | .negate => onFrameWithin (unary · Integer.neg)
  | .abs => onFrameWithin (unary · Integer.abs)
  | .not => onFrame logicalNot
  | .nz => onFrameWithin nonZero
  | .add => onFrameWithin (binary · fun a b => .ok (a.add b))
  | .sub => onFrameWithin (binary · fun a b => .ok (a.sub b))
  | .mul => onFrameWithin (binary · fun a b => .ok (a.mul b))
  | .div => onFrameWithin (binary · quotient)
  | .mod => onFrameWithin (binary · remainder)
  | .shl => onFrameWithin (shift · Integer.shiftLeft)
  | .shr => onFrameWithin (shift · Integer.shiftRight)
  | .boolAnd => onFrame (logical (· && ·))
  | .boolOr => onFrame (logical (· || ·))
  | .numEqual => onFrameWithin (compare · (· == ·))
  | .numNotEqual => onFrameWithin (compare · (· != ·))
  | .lt => onFrameWithin (compare · Integer.less)
  | .gt => onFrameWithin (compare · fun a b => b.less a)
  | .lte => onFrameWithin (compare · Integer.atMost)
  | .gte => onFrameWithin (compare · fun a b => b.atMost a)
  | .min => onFrameWithin (binary · fun a b => .ok (a.min b))
  | .max => onFrameWithin (binary · fun a b => .ok (a.max b))
  | .within => onFrameWithin within
  | .sha1 => onState (digest CryptoSuite.sha1)
  | .sha256 => onState (digest CryptoSuite.sha256)
  | .hash160 => onState (digest CryptoSuite.hash160)
  | .hash256 => onState (digest CryptoSuite.hash256)
  | .checkSig => onState checkSig
  | .verify => onState verify
  | .checkMultiSig => onState checkMultiSig
  | .pack => onState pack
  | .unpack => onState unpack
  | .pickItem => onState pickItem
  | .setItem => onState setItem
  | .newArray => onState newArray
  | .newStruct => onState newStruct
  | .newMap => onState newMap
  | .append => onState append
  | .reverse => onState reverse
  | .remove => onState remove
  | .hasKey => onState hasKey
  | .keys => onState keys
  | .values => onState values
  | .callI => onState (callIsolated i)
  | .callE | .callED | .callET | .callEDT => callExternal nested i
  | .throw => onState (throwAlways i)
  | .throwIfNot => onState (throwIfNot i)

/-- Carries out an instruction by the behaviour that the table gives to its opcode. -/
def dispatch (nested : Engine → Engine) (i : Instruction) : Run Unit := do
  match (← get).table i.op with
  | .standard op => perform nested op i
  | .invalid => throw (.unhandledOpcode i.op i.position)
  | .custom run => onState (run i)

/-- Gives an opcode a behaviour. -/
def register (e : Engine) (op : OpCode) (b : Behaviour) : Engine :=
  { e with table := fun other => if other = op then b else e.table other }

/-- A one-line summary of a table, which always covers all opcodes. -/
def tableSummary : String :=
  let registered := OpCode.all.length
  "JumpTable \x7b registered: " ++ s!"{registered}" ++ " \x7d"

end Engine

end ScriptMachine
