import ScriptMachine.Engine.Dispatch

/-! # Steps and runs

A step fetches an instruction, charges its price, carries it out and checks the number of items. A run
makes steps until the machine has ended.

* `Engine.stepWith`: one step, given the step that callbacks may ask for.
* `Engine.step`: one step.
* `Engine.stepOver`, `Engine.stepOut`: steps until a call or the current frame has returned.
* `Engine.execute`: a run with a budget of gas.
-/

namespace ScriptMachine

namespace Engine

/-- A machine with the given bounds and cryptography, and without a host. -/
def new (limits : Limits) (crypto : CryptoSuite) : Engine := { state := State.new limits crypto }

/-- The status of the machine. -/
def status (e : Engine) : Status := e.state.session.status

/-- The number of frames. -/
def depth (e : Engine) : Nat := e.state.session.calls.depth

/-- Changes the state. -/
def modifyState (e : Engine) (f : State → State) : Engine := { e with state := f e.state }

/-! ### One instruction -/

/-- The instruction at the cursor of a frame, or the byte there that is no opcode. Past the end of a
script stands a return. -/
def fetch (f : Frame) : Except UInt8 OpCode :=
  match f.currentByte? with
  | none => .ok .ret
  | some byte =>
    match OpCode.ofByte? byte with
    | some op => .ok op
    | none => .error byte

/-- Carries out one instruction and records its failure. -/
def carryOut (nested : Engine → Engine) (i : Instruction) (e : Engine) :
    Except Fault Unit × Engine :=
  match (dispatch nested i).run e with
  | (.ok (), e) => (.ok (), e)
  | (.error f, e) => (.error f, e.modifyState (·.record (.failed i.op i.position)))

/-- Fetches, charges and carries out the next instruction. An instruction that cannot be paid for
leaves no trace but the status. -/
def executeNext (nested : Engine → Engine) (e : Engine) : Except Fault Unit × Engine :=
  match e.state.frames with
  | [] => (.error .noCurrentFrame, e)
  | f :: rest =>
    let position := f.cursor
    let fetched := fetch f
    let price :=
      match fetched with
      | .ok op => e.state.price op
      | .error _ => 1
    match e.state.consumeGas price with
    | (false, state) => (.ok (), { e with state })
    | (true, state) =>
      let cursor := if f.currentByte?.isSome then position + 1 else position
      let e := { e with state := state.setFrames ({ f with cursor } :: rest) }
      match fetched with
      | .error byte => (.error (.unassignedByte byte position), e)
      | .ok op => carryOut nested ⟨op, position⟩ e

/-- The checks after an instruction that left the machine running: the number of items, and whether a
frame is left. -/
def settle (s : State) : State :=
  if s.session.status.isRunning then
    let count := s.itemCount
    if count > s.limits.maxStackSize then
      (s.record (.fault (.tooManyItems count s.limits.maxStackSize))).setStatus .faulted
    else if s.frames.isEmpty then s.setStatus .halted
    else s
  else s

/-- The end of a step whose instruction failed: a status that the host has caused stays. -/
def fail (s : State) (f : Fault) : State :=
  let s := s.record (.fault f)
  if s.session.status.isRunning then s.setStatus .faulted else s

/-- One step; a machine that has ended stays as it is. Callbacks step by `nested`. -/
def stepWith (nested : Engine → Engine) (e : Engine) : Engine :=
  if e.status.isFinal then e
  else if e.state.frames.isEmpty then e.modifyState (·.setStatus .halted)
  else
    match executeNext nested e with
    | (.error f, e) => e.modifyState (fail · f)
    | (.ok (), e) => e.modifyState settle

/-- A step from within `level` nested callbacks: below the last level callbacks cannot step. -/
def stepAt : (level : Nat) → Engine → Engine
  | 0 => stepWith id
  | level + 1 => stepWith (stepAt level)

/-- How deep callbacks can be nested. Both callbacks are out of their places while they run, so that a
third one can only be a service handler that was put in meanwhile. -/
def nestingLimit : Nat := 16

/-- One step. -/
def step (e : Engine) : Engine := stepAt nestingLimit e

/-- Carries out an instruction directly: without a fetch, a price or a change of the status. -/
def dispatchNow (e : Engine) (i : Instruction) : Except Fault Unit × Engine :=
  (dispatch (stepAt nestingLimit) i).run e

/-! ### Runs -/

/-- Steps while the machine runs and the condition holds, at most `fuel` times. -/
def stepWhile (condition : Engine → Bool) : (fuel : Nat) → Engine → Engine
  | 0, e => e
  | fuel + 1, e =>
    if e.status.isRunning && condition e then stepWhile condition fuel (step e) else e

/-- The number of steps that the gas allows: every step that leaves the machine running takes at least
one unit, and one more step refuses the next instruction. The greatest limit refuses nothing, because
the consumed gas stops there; it stands for `2 ^ 64` steps. -/
def stepBudget (e : Engine) : Nat :=
  if e.state.session.gasLimit < maxUInt64 then
    e.state.session.gasLimit - e.state.session.gasConsumed + 1
  else maxUInt64 + 1

/-- Runs until the machine has ended, with a budget of gas. -/
def execute (e : Engine) (gasLimit : Nat) : Engine :=
  let e := e.modifyState (·.setGasLimit gasLimit)
  stepWhile (fun _ => true) e.stepBudget e

/-- Steps until control is back in the current frame or further out. -/
def stepOver (e : Engine) : Engine :=
  if e.status.isFinal then e
  else stepWhile (fun later => later.depth > e.depth) e.stepBudget (step e)

/-- Steps until the current frame has returned. -/
def stepOut (e : Engine) : Engine :=
  if e.status.isFinal then e
  else stepWhile (fun later => later.depth ≥ e.depth) e.stepBudget (step e)

/-- Makes `n` steps. -/
def steps : Nat → Engine → Engine
  | 0, e => e
  | n + 1, e => steps n (step e)

end Engine

end ScriptMachine
